import Attestia.Witness.GovernanceHistory
import Attestia.Witness.Quorum

/-!
# Quorums of the past

The aggregation of signatures and the validation of a historical quorum verify and count the same
signatures. They add up the weights in the order that they are given, which for the signatures that
an aggregation retains is the order of the addresses.
-/

namespace Attestia.Witness

open Lib Effect

section

variable (verify : SignatureVerifier) (payloadHash : JsString) (policy : GovernancePolicy)

/-- The verifier accepts the signature for the signer of its address. -/
def accepts (sig : SignerSignature) : Bool :=
  match (signerByAddress policy).get? sig.address with
  | none => false
  | some signer => match verify sig payloadHash signer with
    | .ok ok => ok
    | .error _ => false

def signatureWeight (sig : SignerSignature) : JsNumber :=
  match (signerByAddress policy).get? sig.address with
  | none => .finite 0
  | some signer => signer.weight

/-- The weights of the signers of signatures, added up in the order of the signatures. -/
def verifiedWeight (signatures : List SignerSignature) : JsNumber :=
  JsNumber.sum (signatures.map (signatureWeight policy))

/-- The verifier returns for the signer of the address. -/
def Verifies (sig : SignerSignature) : Prop :=
  ∃ signer ok, (signerByAddress policy).get? sig.address = some signer ∧
    verify sig payloadHash signer = .ok ok

end

variable {verify : SignatureVerifier} {payloadHash : JsString} {policy : GovernancePolicy}

theorem get?_signerByAddress {address : JsString} {signer : SignerEntry}
    (h : (signerByAddress policy).get? address = some signer) :
    signer ∈ policy.signers ∧ signer.address = address := by
  have hentries : ∀ (l : List (JsString × SignerEntry)) (m : JsMap JsString SignerEntry),
      (m.setAll l).get? address = some signer → m.get? address = some signer ∨ (address, signer) ∈ l := by
    intro l
    induction l with
    | nil => exact fun m hm => .inl hm
    | cons e l ih =>
      intro m hm
      rcases ih (m.set e.1 e.2) hm with hset | hmem
      · rw [JsMap.get?_set] at hset
        split at hset
        · rename_i hkey
          have he : e = (address, signer) := Prod.ext hkey (Option.some.inj hset)
          exact .inr (he ▸ .head _)
        · exact .inl hset
      · exact .inr (.tail _ hmem)
  rcases hentries _ _ h with hempty | hmem
  · cases hempty
  · obtain ⟨s, hs, heq⟩ := List.mem_map.mp hmem
    cases heq
    exact ⟨hs, rfl⟩

theorem accepts_eq_true {sig : SignerSignature} : accepts verify payloadHash policy sig = true ↔
    ∃ signer, (signerByAddress policy).get? sig.address = some signer ∧
      verify sig payloadHash signer = .ok true := by
  unfold accepts
  cases (signerByAddress policy).get? sig.address with
  | none => simp
  | some signer =>
    simp only [Option.some.injEq, exists_eq_left']
    cases verify sig payloadHash signer <;> simp

theorem Verifies.of_accepts {sig : SignerSignature}
    (h : accepts verify payloadHash policy sig = true) : Verifies verify payloadHash policy sig := by
  obtain ⟨signer, hget, hok⟩ := accepts_eq_true.mp h
  exact ⟨signer, true, hget, hok⟩

/-! ## Aggregations -/

/-- The loop of the aggregation counts the signatures that are accepted. -/
theorem foldlM_countSignature {signatures : List SignerSignature} {count count' : Count} :
    signatures.foldlM (countSignature (signerByAddress policy) (some verify) payloadHash) count =
        .ok count' ↔
      (∀ sig ∈ signatures, Verifies verify payloadHash policy sig) ∧
        count' = ⟨((signatures.filter (accepts verify payloadHash policy)).map
            (signatureWeight policy)).foldl JsNumber.add count.totalWeight,
          count.countedAddresses ++ (signatures.filter (accepts verify payloadHash policy)).map
            SignerSignature.address⟩ := by
  induction signatures generalizing count with
  | nil =>
    simp only [List.foldlM_nil, List.filter_nil, List.map_nil, List.foldl_nil, List.append_nil]
    exact ⟨fun h => ⟨by simp, (Except.ok.inj h).symm⟩, fun h => congrArg Except.ok h.2.symm⟩
  | cons sig signatures ih =>
    rw [List.foldlM_cons, List.forall_mem_cons]
    cases hget : (signerByAddress policy).get? sig.address with
    | none =>
      have hstep : countSignature (signerByAddress policy) (some verify) payloadHash count sig =
          .error (.notInPolicy sig.address) := by rw [countSignature, hget]
      rw [hstep]
      constructor
      · intro h
        cases h
      · rintro ⟨⟨⟨signer, ok, hsome, -⟩, -⟩, -⟩
        cases hget.symm.trans hsome
    | some signer =>
      cases hverify : verify sig payloadHash signer with
      | error message =>
        have hstep : countSignature (signerByAddress policy) (some verify) payloadHash count sig =
            .error (.verifier message) := by
          rw [countSignature, hget]
          dsimp only
          rw [hverify]
          rfl
        rw [hstep]
        constructor
        · intro h
          cases h
        · rintro ⟨⟨⟨signer', ok, hsome, hok⟩, -⟩, -⟩
          cases hget.symm.trans hsome
          cases hverify.symm.trans hok
      | ok ok =>
        have hstep : countSignature (signerByAddress policy) (some verify) payloadHash count sig =
            .ok (if ok then count.add signer sig.address else count) := by
          rw [countSignature, hget]
          dsimp only
          rw [hverify]
          rfl
        have haccepts : accepts verify payloadHash policy sig = ok := by
          rw [accepts, hget]
          dsimp only
          rw [hverify]
        have hverifies : Verifies verify payloadHash policy sig := ⟨signer, ok, hget, hverify⟩
        have hweight : signatureWeight policy sig = signer.weight := by rw [signatureWeight, hget]
        rw [hstep]
        change signatures.foldlM _ (if ok then count.add signer sig.address else count) = _ ↔ _
        rw [ih]
        cases ok with
        | false =>
          rw [List.filter_cons_of_neg (by rw [haccepts]; decide)]
          simp [hverifies]
        | true =>
          rw [List.filter_cons_of_pos haccepts, List.map_cons, List.map_cons, List.foldl_cons, hweight]
          simp [hverifies, Count.add]

/-- The signatures that an aggregation retains, in the order that they are given. -/
def retained (verify : SignatureVerifier) (payloadHash : JsString) (policy : GovernancePolicy)
    (signatures : List SignerSignature) : List SignerSignature :=
  signatures.filter (accepts verify payloadHash policy)

/-- What an aggregation asks of the signatures. -/
structure Aggregates (verify : SignatureVerifier) (payloadHash : JsString) (policy : GovernancePolicy)
    (signatures : List SignerSignature) : Prop where
  nodup : (signatures.map SignerSignature.address).Nodup
  verifies : ∀ sig ∈ signatures, Verifies verify payloadHash policy sig
  quorum : policy.quorum.le
    (verifiedWeight policy (retained verify payloadHash policy signatures)) = true

theorem mem_keys_of_verifies {sig : SignerSignature} (h : Verifies verify payloadHash policy sig) :
    sig.address ∈ (signerByAddress policy).keys := by
  obtain ⟨signer, -, hget, -⟩ := h
  exact JsMap.mem_keys.mpr ⟨signer, hget⟩

/-- The signatures of the addresses that have been counted are those that are accepted. -/
theorem filter_mem_counted {signatures : List SignerSignature}
    (hnodup : (signatures.map SignerSignature.address).Nodup) :
    signatures.filter (fun s => s.address ∈
        (retained verify payloadHash policy signatures).map SignerSignature.address) =
      retained verify payloadHash policy signatures := by
  apply List.filter_congr
  intro sig hsig
  rw [Bool.eq_iff_iff, decide_eq_true_eq]
  constructor
  · intro hmem
    obtain ⟨other, hother, heq⟩ := List.mem_map.mp hmem
    obtain ⟨hmem, haccepts⟩ := List.mem_filter.mp hother
    rwa [← List.inj_on_of_nodup_map hnodup hmem hsig heq]
  · intro haccepts
    exact List.mem_map_of_mem (List.mem_filter.mpr ⟨hsig, haccepts⟩)

theorem aggregateSignatures_eq_ok {platform : Platform} {signatures : List SignerSignature}
    {now : JsString} {r : AggregatedSignature} :
    aggregateSignatures platform signatures policy payloadHash (some verify) now = .ok r ↔
      Aggregates verify payloadHash policy signatures ∧
        r = ⟨payloadHash, orderSignatures platform (retained verify payloadHash policy signatures),
          Count.quorum ⟨verifiedWeight policy (retained verify payloadHash policy signatures),
            (retained verify payloadHash policy signatures).map SignerSignature.address⟩ policy, now⟩ := by
  rw [aggregateSignatures]
  dsimp only
  rw [bind_unit_eq_ok, throwIf_eq_ok, not_not, bind_unit_eq_ok, forM_eq_ok, bind_unit_eq_ok,
    throwIf_eq_ok, Option.isNone_some, Bool.and_false, bind_eq_ok]
  have hcount := @foldlM_countSignature verify payloadHash policy signatures ⟨.finite 0, []⟩
  constructor
  · rintro ⟨hnodup, -, -, count, hloop, h⟩
    obtain ⟨hverifies, rfl⟩ := hcount.mp hloop
    obtain ⟨hquorum, h⟩ := bind_unit_eq_ok.mp h
    rw [throwIf_eq_ok, Bool.not_eq_true', Bool.not_eq_false] at hquorum
    refine ⟨⟨hnodup, hverifies, hquorum⟩, ?_⟩
    rw [← Except.ok.inj h]
    simp only [List.nil_append]
    rw [← retained, filter_mem_counted hnodup]
    rfl
  · rintro ⟨⟨hnodup, hverifies, hquorum⟩, rfl⟩
    refine ⟨hnodup, ?_, by decide, _, hcount.mpr ⟨hverifies, rfl⟩, bind_unit_eq_ok.mpr ⟨?_, ?_⟩⟩
    · intro address haddress
      obtain ⟨sig, hsig, rfl⟩ := List.mem_map.mp haddress
      rw [throwIf_eq_ok, Bool.not_eq_true', Bool.not_eq_false, JsMap.has_eq_true]
      exact mem_keys_of_verifies (hverifies sig hsig)
    · rw [throwIf_eq_ok, Bool.not_eq_true', Bool.not_eq_false]
      exact hquorum
    · simp only [List.nil_append]
      rw [← retained, filter_mem_counted hnodup]
      rfl

/-! ## Validations -/

/-- A turn of the validation without a rejection counts a signature that is accepted. -/
theorem countHistorical_of_accepts {sig : SignerSignature} {count : HistoricalCount}
    (haccepts : accepts verify payloadHash policy sig = true)
    (hnew : sig.address ∉ count.countedAddresses) :
    countHistorical (signerByAddress policy) (some (verify, payloadHash)) count sig =
      .ok { count with
        totalWeight := count.totalWeight.add (signatureWeight policy sig)
        countedAddresses := count.countedAddresses ++ [sig.address] } := by
  obtain ⟨signer, hget, hok⟩ := accepts_eq_true.mp haccepts
  rw [countHistorical, signatureWeight, hget]
  dsimp only
  rw [hok]
  dsimp only [bind, Except.bind]
  rw [Bool.not_true, if_neg (by decide), if_neg hnew]
  rfl

theorem foldlM_countHistorical {signatures : List SignerSignature} {count : HistoricalCount}
    (haccepts : ∀ sig ∈ signatures, accepts verify payloadHash policy sig = true)
    (hnodup : (count.countedAddresses ++ signatures.map SignerSignature.address).Nodup) :
    signatures.foldlM (countHistorical (signerByAddress policy) (some (verify, payloadHash))) count =
      .ok { count with
        totalWeight := (signatures.map (signatureWeight policy)).foldl JsNumber.add count.totalWeight
        countedAddresses := count.countedAddresses ++ signatures.map SignerSignature.address } := by
  induction signatures generalizing count with
  | nil =>
    simp only [List.map_nil, List.append_nil, List.foldl_nil]
    rfl
  | cons sig signatures ih =>
    have hnew : sig.address ∉ count.countedAddresses := by
      intro hmem
      exact (List.nodup_append.mp hnodup).2.2 _ hmem _ (.head _) rfl
    rw [List.foldlM_cons, countHistorical_of_accepts (haccepts sig (.head _)) hnew]
    change signatures.foldlM _ _ = _
    rw [ih fun s hs => haccepts s (.tail _ hs)]
    · simp
    · simpa using hnodup

/-- Rejections are never taken back, and a signature of a signer that is not accepted adds one. -/
theorem accepts_of_foldlM_countHistorical {signatures : List SignerSignature}
    {count count' : HistoricalCount}
    (h : signatures.foldlM (countHistorical (signerByAddress policy) (some (verify, payloadHash)))
      count = .ok count') (hnone : count'.rejections = []) :
    count.rejections = [] ∧ ∀ sig ∈ signatures, sig.address ∈ (signerByAddress policy).keys →
      accepts verify payloadHash policy sig = true := by
  induction signatures generalizing count with
  | nil =>
    cases h
    exact ⟨hnone, by simp⟩
  | cons sig signatures ih =>
    rw [List.foldlM_cons] at h
    obtain ⟨next, hnext, h⟩ := bind_eq_ok.mp h
    obtain ⟨hrejections, hrest⟩ := ih h
    rw [List.forall_mem_cons]
    rw [countHistorical] at hnext
    cases hget : (signerByAddress policy).get? sig.address with
    | none =>
      rw [hget] at hnext
      cases hnext
      exact ⟨hrejections, fun hmem => absurd hmem (JsMap.get?_eq_none.mp hget), hrest⟩
    | some signer =>
      rw [hget] at hnext
      obtain ⟨ok, hok, hnext⟩ := bind_eq_ok.mp hnext
      cases ok with
      | false =>
        cases hnext
        exact absurd hrejections (List.append_ne_nil_of_right_ne_nil _ (List.cons_ne_nil _ _))
      | true =>
        have haccepts : accepts verify payloadHash policy sig = true :=
          accepts_eq_true.mpr ⟨signer, hget, hok⟩
        dsimp only at hnext
        rw [Bool.not_true, if_neg (by decide)] at hnext
        split at hnext <;> cases hnext <;> exact ⟨hrejections, fun _ => haccepts, hrest⟩

/-- What a validation asks of the signatures. -/
structure Validates (verify : SignatureVerifier) (payloadHash : JsString) (policy : GovernancePolicy)
    (signatures : List SignerSignature) : Prop where
  nodup : (signatures.map SignerSignature.address).Nodup
  accepts : ∀ sig ∈ signatures, accepts verify payloadHash policy sig = true
  quorum : policy.quorum.le (verifiedWeight policy signatures) = true

theorem rejectIf_eq_nil {c : Prop} [Decidable c] {text : JsString} : rejectIf c text = [] ↔ ¬ c := by
  unfold rejectIf
  split <;> simp [*]

theorem structuralRejections_eq_nil {policyVersion : ℤ} {signatures : List SignerSignature} :
    structuralRejections policy policyVersion signatures (some verify) (some payloadHash) = [] ↔
      (∀ sig ∈ signatures, sig.address ∈ (signerByAddress policy).keys) ∧
        (signatures.map SignerSignature.address).Nodup := by
  rw [structuralRejections]
  simp only [List.append_eq_nil_iff, rejectIf_eq_nil, List.map_eq_nil_iff, List.filter_eq_nil_iff,
    not_not, Option.isNone_some, Bool.and_false, Bool.false_eq_true, not_false_eq_true, and_true,
    Bool.not_eq_true', Bool.not_eq_false, JsMap.has_eq_true]

theorem validateHistoricalQuorum_valid {platform : Platform} {now : JsString}
    {errorText : EventStore.JsError → JsString} {signatures : List SignerSignature}
    {events : List GovernanceChangeEvent} {policyVersion : ℤ}
    (hpolicy : replayToVersion platform now events policyVersion = .ok policy) :
    (∃ r, validateHistoricalQuorum platform now errorText signatures events policyVersion (some verify)
        (some payloadHash) = .ok r ∧ r.valid = true) ↔
      Validates verify payloadHash policy signatures := by
  rw [validateHistoricalQuorum, hpolicy]
  dsimp only [Option.bind_some, Option.map_some]
  constructor
  · rintro ⟨r, hr, hvalid⟩
    obtain ⟨count, hloop, hr⟩ := bind_eq_ok.mp hr
    cases hr
    rw [decide_eq_true_eq, List.append_eq_nil_iff, quorumRejection, rejectIf_eq_nil, not_not] at hvalid
    obtain ⟨hstructural, haccepts⟩ := accepts_of_foldlM_countHistorical hloop hvalid.1
    obtain ⟨hmem, hnodup⟩ := structuralRejections_eq_nil.mp hstructural
    have haccepts : ∀ sig ∈ signatures, accepts verify payloadHash policy sig = true :=
      fun sig hsig => haccepts sig hsig (hmem sig hsig)
    rw [foldlM_countHistorical haccepts (by simpa using hnodup)] at hloop
    rw [← Except.ok.inj hloop] at hvalid
    exact ⟨hnodup, haccepts, hvalid.2⟩
  · rintro ⟨hnodup, haccepts, hquorum⟩
    have hstructural : structuralRejections policy policyVersion signatures (some verify)
        (some payloadHash) = [] :=
      structuralRejections_eq_nil.mpr
        ⟨fun sig hsig => mem_keys_of_verifies (.of_accepts (haccepts sig hsig)), hnodup⟩
    rw [foldlM_countHistorical haccepts (by simpa using hnodup)]
    refine ⟨_, rfl, ?_⟩
    dsimp only
    rw [decide_eq_true_eq, List.append_eq_nil_iff, quorumRejection, rejectIf_eq_nil, not_not]
    exact ⟨hstructural, hquorum⟩

/-! ## Agreement -/

theorem getCurrentPolicy_withLastUpdated {platform : Platform} (g : GovernanceStore) (t : JsString) :
    { g with lastUpdated := t }.getCurrentPolicy platform =
      (g.getCurrentPolicy platform).map fun policy => { policy with updatedAt := t } := by
  rw [GovernanceStore.getCurrentPolicy, GovernanceStore.getCurrentPolicy]
  dsimp only
  cases platform.canonicalize (canonicalPolicyShape platform g.version g.signers.values g.quorum) with
  | error => rfl
  | ok json => simp only [bind, Except.bind, pure, Except.pure, Except.map]

/-- The replay of a longer history to the version of a shorter one gives its signers and quorum. -/
theorem exists_replayToVersion {platform : Platform} {createdAt : JsString}
    {history : List GovernanceChangeEvent}
    (hpolicy : ((GovernanceStore.new createdAt).replayFrom history).getCurrentPolicy platform =
      .ok policy) (more : List GovernanceChangeEvent) (now : JsString) :
    ∃ updatedAt, replayToVersion platform now (history ++ more) history.length =
      .ok { policy with updatedAt := updatedAt } := by
  have hlength : ¬ ((history ++ more).length : ℤ) < history.length := by
    rw [List.length_append]
    omega
  have htake : (history ++ more).take (history.length : ℤ).toNat = history := by
    rw [Int.toNat_natCast, List.take_left]
  rw [replayToVersion, throwIf, if_neg (by omega), throwIf, if_neg hlength]
  change ∃ updatedAt, (((GovernanceStore.new now).replayFrom
    ((history ++ more).take (history.length : ℤ).toNat)).getCurrentPolicy platform).mapError _ = _
  rw [htake]
  -- the stores differ in the time of the last change
  obtain ⟨t, ht⟩ : ∃ t, (GovernanceStore.new now).replayFrom history =
      { (GovernanceStore.new createdAt).replayFrom history with lastUpdated := t } := by
    by_cases hnil : history = []
    · rw [hnil]
      exact ⟨now, rfl⟩
    · refine ⟨((GovernanceStore.new createdAt).replayFrom history).lastUpdated, ?_⟩
      exact GovernanceStore.applyEvents_new now createdAt hnil
  rw [ht]
  refine ⟨t, mapError_eq_ok.mpr ?_⟩
  rw [getCurrentPolicy_withLastUpdated, hpolicy]
  rfl

/-- The weights of the signers of a policy are natural numbers whose sum is exact. -/
structure ExactWeights (policy : GovernancePolicy) : Prop where
  natural : ∀ s ∈ policy.signers, s.weight = .finite s.points
  bound : (policy.signers.map SignerEntry.points).sum ≤ 2 ^ 53

def signaturePoints (policy : GovernancePolicy) (sig : SignerSignature) : ℕ :=
  ((signerByAddress policy).get? sig.address).elim 0 SignerEntry.points

/-- The signers of signatures that are accepted. -/
theorem exists_signers {signatures : List SignerSignature}
    (h : ∀ sig ∈ signatures, accepts verify payloadHash policy sig = true) :
    ∃ signers : List SignerEntry, (∀ s ∈ signers, s ∈ policy.signers) ∧
      signers.map SignerEntry.address = signatures.map SignerSignature.address ∧
      signatures.map (signatureWeight policy) = signers.map SignerEntry.weight ∧
      signatures.map (signaturePoints policy) = signers.map SignerEntry.points := by
  induction signatures with
  | nil => exact ⟨[], by simp, rfl, rfl, rfl⟩
  | cons sig signatures ih =>
    obtain ⟨signers, hmem, haddresses, hweights, hpoints⟩ := ih fun s hs => h s (.tail _ hs)
    obtain ⟨signer, hget, -⟩ := accepts_eq_true.mp (h sig (.head _))
    obtain ⟨hsigner, haddress⟩ := get?_signerByAddress hget
    refine ⟨signer :: signers, List.forall_mem_cons.mpr ⟨hsigner, hmem⟩, ?_, ?_, ?_⟩
    · rw [List.map_cons, List.map_cons, haddress, haddresses]
    · rw [List.map_cons, List.map_cons, hweights, signatureWeight, hget]
    · rw [List.map_cons, List.map_cons, hpoints, signaturePoints, hget]
      rfl

/-- The sum of the weights is exact in every order. -/
theorem ExactWeights.verifiedWeight (h : ExactWeights policy) {signatures : List SignerSignature}
    (haccepts : ∀ sig ∈ signatures, accepts verify payloadHash policy sig = true)
    (hnodup : (signatures.map SignerSignature.address).Nodup) :
    verifiedWeight policy signatures = .finite ((signatures.map (signaturePoints policy)).sum : ℚ) := by
  obtain ⟨signers, hmem, haddresses, hweights, hpoints⟩ := exists_signers haccepts
  have hsigners : signers.Nodup := by
    rw [← haddresses] at hnodup
    exact hnodup.of_map _
  obtain ⟨part, hperm, hsublist⟩ := List.subperm_of_subset hsigners fun s hs => hmem s hs
  have hbound : (signers.map SignerEntry.points).sum ≤ 2 ^ 53 := by
    rw [← (hperm.map SignerEntry.points).sum_eq]
    exact (hsublist.map SignerEntry.points).sum_le_sum (by simp) |>.trans h.bound
  have hnatural : signers.map SignerEntry.weight =
      (signers.map SignerEntry.points).map fun n : ℕ => JsNumber.finite n := by
    rw [List.map_map]
    apply List.map_congr_left
    intro s hs
    exact h.natural s (hmem s hs)
  rw [Witness.verifiedWeight, hweights, hnatural, JsNumber.sum_natCast hbound, hpoints]

/-- An aggregation retains the signatures of distinct signers that the verifier accepts, and their
weights reach the quorum. The validation of the version accepts them, where their weights do so in
the order of the addresses too; every list that it accepts can be aggregated. -/
theorem historical_agreement (platform : Platform) (createdAt : JsString)
    (history : List GovernanceChangeEvent) (policy : GovernancePolicy)
    (hpolicy : ((GovernanceStore.new createdAt).replayFrom history).getCurrentPolicy platform =
      .ok policy) (verify : SignatureVerifier) (payloadHash : JsString)
    (signatures : List SignerSignature) :
    (∀ now r, aggregateSignatures platform signatures policy payloadHash (some verify) now = .ok r →
      (r.signatures.map SignerSignature.address).Nodup ∧
      (∀ sig ∈ r.signatures, ∃ s ∈ policy.signers, s.address = sig.address ∧
        verify sig payloadHash s = .ok true) ∧
      r.signatures.Perm (signatures.filter (accepts verify payloadHash policy)) ∧
      policy.quorum.le (verifiedWeight policy
        (signatures.filter (accepts verify payloadHash policy))) = true ∧
      ∀ more now errorText,
        ((∃ v, validateHistoricalQuorum platform now errorText r.signatures (history ++ more)
            history.length (some verify) (some payloadHash) = .ok v ∧ v.valid = true) ↔
          policy.quorum.le (verifiedWeight policy r.signatures) = true) ∧
        (ExactWeights policy → ∃ v, validateHistoricalQuorum platform now errorText r.signatures
          (history ++ more) history.length (some verify) (some payloadHash) = .ok v ∧
            v.valid = true)) ∧
    ∀ more now errorText v, validateHistoricalQuorum platform now errorText signatures
        (history ++ more) history.length (some verify) (some payloadHash) = .ok v → v.valid = true →
      ∀ now, ∃ r, aggregateSignatures platform signatures policy payloadHash (some verify) now =
        .ok r := by
  constructor
  · intro now r hr
    obtain ⟨⟨hnodup, -, hquorum⟩, rfl⟩ := aggregateSignatures_eq_ok.mp hr
    dsimp only
    have hperm : (orderSignatures platform (retained verify payloadHash policy signatures)).Perm
        (retained verify payloadHash policy signatures) := List.perm_insertionSort _ _
    have hretained : ((retained verify payloadHash policy signatures).map
        SignerSignature.address).Nodup := hnodup.sublist (List.filter_sublist.map _)
    have haccepts : ∀ sig ∈ retained verify payloadHash policy signatures,
        accepts verify payloadHash policy sig = true := fun sig hsig => (List.mem_filter.mp hsig).2
    have hordered : ((orderSignatures platform (retained verify payloadHash policy signatures)).map
        SignerSignature.address).Nodup := (hperm.map _).nodup_iff.mpr hretained
    have hvalid : ∀ more now errorText, (∃ v, validateHistoricalQuorum platform now errorText
        (orderSignatures platform (retained verify payloadHash policy signatures)) (history ++ more)
          history.length (some verify) (some payloadHash) = .ok v ∧ v.valid = true) ↔
        policy.quorum.le (verifiedWeight policy
          (orderSignatures platform (retained verify payloadHash policy signatures))) = true := by
      intro more now errorText
      obtain ⟨updatedAt, hreplay⟩ := exists_replayToVersion hpolicy more now
      rw [validateHistoricalQuorum_valid hreplay]
      constructor
      · exact fun h => h.quorum
      · exact fun h => ⟨hordered, fun sig hsig => haccepts sig (hperm.mem_iff.mp hsig), h⟩
    refine ⟨hordered, ?_, hperm, hquorum, fun more now errorText => ⟨hvalid more now errorText, ?_⟩⟩
    · intro sig hsig
      obtain ⟨signer, hget, hok⟩ := accepts_eq_true.mp (haccepts sig (hperm.mem_iff.mp hsig))
      obtain ⟨hsigner, haddress⟩ := get?_signerByAddress hget
      exact ⟨signer, hsigner, haddress, hok⟩
    · intro hexact
      rw [hvalid, hexact.verifiedWeight (fun sig hsig => haccepts sig (hperm.mem_iff.mp hsig)) hordered,
        (hperm.map (signaturePoints policy)).sum_eq, ← hexact.verifiedWeight haccepts hretained]
      exact hquorum
  · intro more now errorText v hv hvalid now'
    obtain ⟨updatedAt, hreplay⟩ := exists_replayToVersion hpolicy more now
    obtain ⟨hnodup, haccepts, hquorum⟩ :=
      (validateHistoricalQuorum_valid hreplay).mp ⟨v, hv, hvalid⟩
    have hall : retained verify payloadHash policy signatures = signatures :=
      List.filter_eq_self.mpr haccepts
    refine ⟨_, aggregateSignatures_eq_ok.mpr ⟨⟨hnodup, fun sig hsig => .of_accepts (haccepts sig hsig),
      ?_⟩, rfl⟩⟩
    rw [hall]
    exact hquorum

/-! ### Weights whose sum depends on the order -/

def weighted (address : String) (weight : ℕ) : GovernanceCall :=
  .addSigner (js address) (js "Signer") (some (.finite weight)) none (js "t")

/-- The last signer has the weight of the bound and the least address. -/
def unevenStore : GovernanceStore := (GovernanceStore.new (js "t")).after jcsPlatform
  [weighted "c" 1, weighted "b" 1, weighted "a" (2 ^ 53),
    .changeQuorum (.finite (2 ^ 53 + 2)) (js "t")]

def signedBy (address : String) : SignerSignature := ⟨js address, js "00", js "t"⟩

def unevenSignatures : List SignerSignature := [signedBy "c", signedBy "b", signedBy "a"]

def acceptAll : SignatureVerifier := fun _ _ _ => .ok true

theorem not_valid_unevenSignatures : ∃ policy r,
    unevenStore.getCurrentPolicy jcsPlatform = .ok policy ∧
    aggregateSignatures jcsPlatform unevenSignatures policy (js "h") (some acceptAll) (js "t") =
      .ok r ∧
    ¬ ∃ v, validateHistoricalQuorum jcsPlatform (js "t") (fun _ => []) r.signatures
      unevenStore.getEventHistory unevenStore.getEventHistory.length (some acceptAll)
        (some (js "h")) = .ok v ∧ v.valid = true := by
  obtain ⟨json, hjson⟩ : ∃ json, jcsPlatform.canonicalize (canonicalPolicyShape jcsPlatform
      unevenStore.version unevenStore.signers.values unevenStore.quorum) = .ok json :=
    exists_eq_ok_of_isOk (by decide +kernel)
  have hpolicy : unevenStore.getCurrentPolicy jcsPlatform = .ok ⟨(Verify.sha256Hex json).take 16,
      unevenStore.version, unevenStore.signers.values, unevenStore.quorum,
      unevenStore.lastUpdated⟩ := by
    rw [GovernanceStore.getCurrentPolicy]
    exact bind_eq_ok.mpr ⟨json, hjson, rfl⟩
  generalize (Verify.sha256Hex json).take 16 = id at hpolicy
  have hsigners : unevenStore.signers.values = [⟨js "c", js "Signer", .finite (1 : ℕ), js "t", none⟩,
      ⟨js "b", js "Signer", .finite (1 : ℕ), js "t", none⟩,
      ⟨js "a", js "Signer", .finite (2 ^ 53 : ℕ), js "t", none⟩] := by decide +kernel
  rw [hsigners] at hpolicy
  have hquorum : unevenStore.quorum = .finite (2 ^ 53 + 2) := by decide +kernel
  rw [hquorum] at hpolicy
  generalize hpol : (⟨id, unevenStore.version, [⟨js "c", js "Signer", .finite (1 : ℕ), js "t", none⟩,
    ⟨js "b", js "Signer", .finite (1 : ℕ), js "t", none⟩,
    ⟨js "a", js "Signer", .finite (2 ^ 53 : ℕ), js "t", none⟩], .finite (2 ^ 53 + 2),
    unevenStore.lastUpdated⟩ : GovernancePolicy) = policy at hpolicy
  have haccepts : ∀ sig ∈ unevenSignatures, accepts acceptAll (js "h") policy sig = true := by
    subst hpol
    intro sig hsig
    simp only [unevenSignatures, List.mem_cons, List.not_mem_nil, or_false] at hsig
    rcases hsig with rfl | rfl | rfl <;> rfl
  have hweights : unevenSignatures.map (signatureWeight policy) =
      [.finite (1 : ℕ), .finite (1 : ℕ), .finite (2 ^ 53 : ℕ)] := by
    subst hpol
    rfl
  have hordered : orderSignatures jcsPlatform unevenSignatures =
      [signedBy "a", signedBy "b", signedBy "c"] := by decide +kernel
  have horder : (orderSignatures jcsPlatform unevenSignatures).map (signatureWeight policy) =
      [.finite (2 ^ 53 : ℕ), .finite (1 : ℕ), .finite (1 : ℕ)] := by
    rw [hordered]
    subst hpol
    rfl
  have hthreshold : policy.quorum = .finite (2 ^ 53 + 2) := hpol ▸ rfl
  have hretained : retained acceptAll (js "h") policy unevenSignatures = unevenSignatures :=
    List.filter_eq_self.mpr haccepts
  refine ⟨policy, _, hpolicy, aggregateSignatures_eq_ok.mpr ⟨⟨by decide +kernel,
    fun sig hsig => .of_accepts (haccepts sig hsig), ?_⟩, rfl⟩, ?_⟩
  · rw [hretained, verifiedWeight, hweights, hthreshold]
    decide +kernel
  · -- in the order of the addresses the ones are rounded away
    rw [hretained]
    have hfollows : unevenStore = (GovernanceStore.new (js "t")).replayFrom unevenStore.events :=
      (GovernanceStore.follows_new (js "t")).after _
    rw [hfollows] at hpolicy
    obtain ⟨updatedAt, hreplay⟩ := exists_replayToVersion hpolicy [] (js "t")
    rw [List.append_nil] at hreplay
    intro hvalid
    have hquorum := ((validateHistoricalQuorum_valid hreplay).mp hvalid).quorum
    change policy.quorum.le (JsNumber.sum ((orderSignatures jcsPlatform unevenSignatures).map
      (signatureWeight policy))) = true at hquorum
    rw [horder, hthreshold] at hquorum
    exact absurd hquorum (by decide +kernel)

/-- Two signers of weight one. -/
theorem historical_agreement_twoSigners : ∃ policy,
    twoSigners.getCurrentPolicy jcsPlatform = .ok policy ∧
    ∀ v, validateHistoricalQuorum jcsPlatform (js "t") (fun _ => []) [signedBy "b", signedBy "a"]
        (twoSigners.events ++ []) twoSigners.events.length (some acceptAll) (some (js "h")) = .ok v →
      v.valid = true → ∃ r, aggregateSignatures jcsPlatform [signedBy "b", signedBy "a"] policy
        (js "h") (some acceptAll) (js "t") = .ok r := by
  obtain ⟨policy, hpolicy⟩ : ∃ policy, twoSigners.getCurrentPolicy jcsPlatform = .ok policy :=
    exists_eq_ok_of_isOk (by decide +kernel)
  have hfollows : twoSigners = (GovernanceStore.new (js "t")).replayFrom twoSigners.events :=
    (GovernanceStore.follows_new (js "t")).after _
  have hreplayed := hpolicy
  rw [hfollows] at hreplayed
  refine ⟨policy, hpolicy, fun v hv hvalid => ?_⟩
  exact (historical_agreement jcsPlatform (js "t") twoSigners.events policy hreplayed acceptAll
    (js "h") [signedBy "b", signedBy "a"]).2 [] (js "t") (fun _ => []) v hv hvalid (js "t")

end Attestia.Witness
