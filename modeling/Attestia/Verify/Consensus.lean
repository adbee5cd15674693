import Attestia.Lib.JsMap
import Attestia.Registrum.Predicate.Evaluator
import Attestia.Verify.GlobalStateHash
import Mathlib.Data.Finset.Card

/-!
# The consensus of verifiers

`verification-consensus.ts`: the reports of a verifier are collapsed into one vote, and the
votes are counted. A vote is for a bundle where all reports of the verifier are, but it names the
bundle of the first report even where the reports conflict, so that the order of the reports can
decide the consensus.
-/

namespace Attestia.Verify

open Lib
open Registrum (numberText)

structure VerifierReport where
  verifierId : JsString
  verdict : VerificationVerdict
  bundleHash : JsString

structure ConsensusResult where
  verdict : VerificationVerdict
  totalVerifiers : ℕ
  passCount : ℕ
  failCount : ℕ
  agreementRatio : JsNumber
  quorumReached : Bool
  singleVerifierPass : Bool
  bundleAgreement : Bool
  dissenters : List JsString
  reason : JsString
  consensusAt : JsString

structure Vote where
  verdict : VerificationVerdict
  bundleHash : JsString
  conflicted : Bool

def atLeast (n : ℕ) (minimumVerifiers : JsNumber) : Bool := minimumVerifiers.le (.finite n)

def isConsensusReached (reports : List VerifierReport) (minimumVerifiers : JsNumber) : Bool :=
  atLeast reports.length minimumVerifiers

theorem atLeast_mono {m n : ℕ} {minimumVerifiers : JsNumber} (hle : m ≤ n)
    (h : atLeast m minimumVerifiers = true) : atLeast n minimumVerifiers = true := by
  have hcast : (m : ℚ) ≤ n := by exact_mod_cast hle
  cases minimumVerifiers with
  | finite q =>
    simp only [atLeast, JsNumber.le, JsNumber.lt, JsNumber.same, Bool.or_eq_true,
      decide_eq_true_eq] at h ⊢
    exact ((le_iff_lt_or_eq.mpr h).trans hcast).lt_or_eq
  | infinity negative => exact h
  | nan => exact h

/-- The vote of a report that is alone. -/
def Vote.ofReport (r : VerifierReport) : Vote := ⟨r.verdict, r.bundleHash, false⟩

/-- A report that conflicts with the vote turns it into a vote against. -/
def Vote.add (prior : Vote) (r : VerifierReport) : Vote :=
  if prior.verdict ≠ r.verdict ∨ prior.bundleHash ≠ r.bundleHash then
    { prior with conflicted := true, verdict := .FAIL }
  else prior

def recordReport (votes : JsMap JsString Vote) (r : VerifierReport) : JsMap JsString Vote :=
  match votes.get? r.verifierId with
  | none => votes.set r.verifierId (.ofReport r)
  | some prior => votes.set r.verifierId (prior.add r)

def byVerifier (reports : List VerifierReport) : JsMap JsString Vote :=
  reports.foldl recordReport .empty

def countText (n : ℕ) : JsString := numberText (.finite n)

def consensusReason (verdict : VerificationVerdict) (quorumReached bundleAgreement : Bool)
    (passCount total bundles : ℕ) (minimumVerifiers : JsNumber) : JsString :=
  if verdict = .PASS then
    js "consensus PASS: " ++ countText passCount ++ js "/" ++ countText total ++
      js " distinct verifiers agree (quorum " ++ numberText minimumVerifiers ++ js " met)"
  else if quorumReached = false then
    js "quorum not reached: " ++ countText total ++ js " of " ++ numberText minimumVerifiers ++
      js " required distinct verifiers reported"
  else if bundleAgreement = false then
    js "verifiers disagree on bundleHash (" ++ countText bundles ++
      js " distinct bundles) \u2014 they are not attesting to the same artifact"
  else
    js "majority did not pass: " ++ countText passCount ++ js "/" ++ countText total ++
      js " distinct verifiers reported PASS (need > " ++ numberText (.finite (total / 2)) ++ js ")"

/-- `consensusAt` is the text of the clock. -/
def aggregateVerifierReports (consensusAt : JsString) (reports : List VerifierReport)
    (minimumVerifiers : JsNumber) : ConsensusResult :=
  let weakThreshold := minimumVerifiers.le (.finite 1)
  if reports = [] then
    { verdict := .FAIL, totalVerifiers := 0, passCount := 0, failCount := 0,
      agreementRatio := .finite 0,
      quorumReached := false, singleVerifierPass := false, bundleAgreement := true,
      dissenters := [], reason := js "no verifier reports submitted", consensusAt }
  else
    let votes := (byVerifier reports).values
    let total := votes.length
    let distinctBundles := (votes.map Vote.bundleHash).toFinset
    let bundleAgreement := decide (distinctBundles.card ≤ 1)
    let passCount := (votes.filter fun v => v.verdict = .PASS).length
    let failCount := total - passCount
    let quorumReached := atLeast total minimumVerifiers
    let verdict : VerificationVerdict :=
      if quorumReached ∧ bundleAgreement ∧ (passCount : ℚ) > total / 2 then .PASS else .FAIL
    let dissenters := ((byVerifier reports).entries.filter fun e => e.2.verdict ≠ verdict).map
      Prod.fst
    let majorityCount := if verdict = .PASS then passCount else failCount
    { verdict, totalVerifiers := total, passCount, failCount,
      agreementRatio := .ofRational (majorityCount / total), quorumReached,
      singleVerifierPass := decide (verdict = .PASS) && weakThreshold, bundleAgreement, dissenters,
      reason := consensusReason verdict quorumReached bundleAgreement passCount total
        distinctBundles.card minimumVerifiers, consensusAt }

/-! ## What the reports say -/

section

variable (reports : List VerifierReport)

def verifiers : Finset JsString := (reports.map VerifierReport.verifierId).toFinset

def firstReport (v : JsString) : Option VerifierReport := reports.find? fun r => r.verifierId = v

/-- All reports of a verifier are PASS on one bundle. -/
def Endorses (bundleHash v : JsString) : Prop :=
  ∀ r ∈ reports, r.verifierId = v → r.verdict = .PASS ∧ r.bundleHash = bundleHash

instance (bundleHash v : JsString) : Decidable (Endorses reports bundleHash v) :=
  inferInstanceAs (Decidable (∀ r ∈ reports, _))

def endorsers (bundleHash : JsString) : Finset JsString :=
  {v ∈ verifiers reports | Endorses reports bundleHash v}

/-- The verifiers whose vote is PASS. -/
def passing : Finset JsString :=
  {v ∈ verifiers reports | ∃ r ∈ reports, Endorses reports r.bundleHash v}

/-- The first reports are on one bundle. -/
def FirstsOn (bundleHash : JsString) : Prop :=
  ∀ v r, firstReport reports v = some r → r.bundleHash = bundleHash

end

variable {reports : List VerifierReport}

theorem mem_verifiers {v : JsString} : v ∈ verifiers reports ↔ ∃ r ∈ reports, r.verifierId = v := by
  rw [verifiers, List.mem_toFinset, List.mem_map]

theorem mem_of_firstReport {v : JsString} {r : VerifierReport} (h : firstReport reports v = some r) :
    r ∈ reports ∧ r.verifierId = v :=
  ⟨List.mem_of_find?_eq_some h, by simpa using List.find?_some h⟩

theorem exists_firstReport {v : JsString} (h : v ∈ verifiers reports) :
    ∃ r, firstReport reports v = some r := by
  obtain ⟨r, hr, hv⟩ := mem_verifiers.mp h
  rw [← Option.isSome_iff_exists, firstReport, List.find?_isSome]
  exact ⟨r, hr, by simpa using hv⟩

theorem Endorses.firstReport {h v : JsString} {r : VerifierReport} (hv : Endorses reports h v)
    (hr : firstReport reports v = some r) : r.bundleHash = h := by
  obtain ⟨hmem, hid⟩ := mem_of_firstReport hr
  exact (hv r hmem hid).2

theorem mem_passing {v : JsString} :
    v ∈ passing reports ↔ v ∈ verifiers reports ∧ ∃ h, Endorses reports h v := by
  rw [passing, Finset.mem_filter, and_congr_right_iff]
  intro hv
  constructor
  · rintro ⟨r, -, h⟩
    exact ⟨r.bundleHash, h⟩
  · rintro ⟨h, hall⟩
    obtain ⟨r, hr⟩ := exists_firstReport hv
    exact ⟨r, (mem_of_firstReport hr).1, by rwa [hall.firstReport hr]⟩

/-- Where the first reports are on one bundle, the votes for are votes for it. -/
theorem passing_eq_endorsers {h : JsString} (hfirsts : FirstsOn reports h) :
    passing reports = endorsers reports h := by
  ext v
  rw [mem_passing, endorsers, Finset.mem_filter, and_congr_right_iff]
  intro hv
  constructor
  · rintro ⟨k, hk⟩
    obtain ⟨r, hr⟩ := exists_firstReport hv
    rwa [← hk.firstReport hr, hfirsts v r hr] at hk
  · exact fun hall => ⟨h, hall⟩

/-! ## Counting the votes -/

theorem Vote.add_verdict (vote : Vote) (r : VerifierReport) :
    (vote.add r).verdict = .PASS ↔
      vote.verdict = .PASS ∧ r.verdict = .PASS ∧ r.bundleHash = vote.bundleHash := by
  rw [Vote.add]
  split
  · rename_i hconflict
    simp only [reduceCtorEq, false_iff]
    rintro ⟨hvote, hr, hhash⟩
    rcases hconflict with hne | hne
    · exact hne (hvote.trans hr.symm)
    · exact hne hhash.symm
  · rename_i hsame
    rw [not_or, not_not, not_not] at hsame
    rw [← hsame.1, hsame.2]
    simp

@[simp] theorem Vote.add_bundleHash (vote : Vote) (r : VerifierReport) :
    (vote.add r).bundleHash = vote.bundleHash := by
  rw [Vote.add]
  split <;> rfl

theorem foldl_add (vote : Vote) (group : List VerifierReport) :
    (group.foldl Vote.add vote).bundleHash = vote.bundleHash ∧
      ((group.foldl Vote.add vote).verdict = .PASS ↔ vote.verdict = .PASS ∧
        ∀ r ∈ group, r.verdict = .PASS ∧ r.bundleHash = vote.bundleHash) := by
  induction group generalizing vote with
  | nil => simp
  | cons r group ih =>
    obtain ⟨hhash, hverdict⟩ := ih (vote.add r)
    rw [Vote.add_bundleHash] at hhash hverdict
    refine ⟨hhash, ?_⟩
    rw [List.foldl_cons, hverdict, Vote.add_verdict, List.forall_mem_cons]
    tauto

theorem byVerifier_eq_collect : byVerifier reports =
    JsMap.collect VerifierReport.verifierId Vote.ofReport Vote.add reports := by
  have hrecord : recordReport = fun votes r => votes.set r.verifierId
      (((votes.get? r.verifierId).getD (.ofReport r)).add r) := by
    funext votes r
    rw [recordReport]
    cases votes.get? r.verifierId with
    | some prior => rfl
    | none =>
      -- a report does not conflict with its own vote
      have hself : (Vote.ofReport r).add r = .ofReport r := by simp [Vote.add, Vote.ofReport]
      rw [Option.getD_none, hself]
  rw [byVerifier, hrecord]
  rfl

theorem keys_byVerifier : (byVerifier reports).keys.toFinset = verifiers reports := by
  ext v
  rw [List.mem_toFinset, byVerifier_eq_collect, JsMap.mem_keys_collect, mem_verifiers]

/-- The vote of a verifier is on the bundle of its first report. -/
theorem get?_byVerifier {v : JsString} {vote : Vote} (h : (byVerifier reports).get? v = some vote) :
    ∃ r, firstReport reports v = some r ∧ vote.bundleHash = r.bundleHash ∧
      (vote.verdict = .PASS ↔ v ∈ passing reports) := by
  have hv : v ∈ verifiers reports := by
    rw [← keys_byVerifier, List.mem_toFinset]
    exact JsMap.mem_keys.mpr ⟨vote, h⟩
  rw [byVerifier_eq_collect, JsMap.get?_collect, JsMap.total, Option.map_eq_some_iff] at h
  obtain ⟨r, hr, rfl⟩ := h
  rw [List.head?_filter] at hr
  obtain ⟨hhash, hverdict⟩ := foldl_add (.ofReport r) (reports.filter fun r => r.verifierId = v)
  have hendorses : (∀ a ∈ reports.filter fun r => r.verifierId = v,
      a.verdict = .PASS ∧ a.bundleHash = r.bundleHash) ↔ Endorses reports r.bundleHash v := by
    simp only [List.mem_filter, decide_eq_true_eq, and_imp]
    exact Iff.rfl
  refine ⟨r, hr, hhash, ?_⟩
  rw [hverdict, mem_passing]
  show r.verdict = .PASS ∧ (∀ a ∈ reports.filter fun r => r.verifierId = v,
    a.verdict = .PASS ∧ a.bundleHash = r.bundleHash) ↔ _
  rw [hendorses]
  constructor
  · exact fun h => ⟨hv, _, h.2⟩
  · rintro ⟨-, k, hk⟩
    have heq : r.bundleHash = k := hk.firstReport hr
    obtain ⟨hmem, hid⟩ := mem_of_firstReport hr
    exact ⟨(hk r hmem hid).1, heq ▸ hk⟩

theorem length_byVerifier : (byVerifier reports).values.length = (verifiers reports).card := by
  have hnodup : (byVerifier reports).keys.Nodup := (byVerifier reports).nodup
  rw [← keys_byVerifier, List.toFinset_card_of_nodup hnodup, JsMap.values, JsMap.keys,
    List.length_map, List.length_map]

theorem mem_filter_entries {p : Vote → Bool} {q : JsString → Prop}
    (h : ∀ v vote, (byVerifier reports).get? v = some vote → (p vote = true ↔ q v)) {v : JsString} :
    v ∈ ((byVerifier reports).entries.filter fun e => p e.2).map Prod.fst ↔
      v ∈ verifiers reports ∧ q v := by
  rw [← keys_byVerifier, List.mem_toFinset, JsMap.mem_keys, List.mem_map]
  constructor
  · rintro ⟨⟨v, vote⟩, he, rfl⟩
    rw [List.mem_filter] at he
    have hget := JsMap.get?_eq_some.mpr he.1
    exact ⟨⟨vote, hget⟩, (h v vote hget).mp he.2⟩
  · rintro ⟨⟨vote, hget⟩, hq⟩
    exact ⟨(v, vote), List.mem_filter.mpr ⟨JsMap.get?_eq_some.mp hget, (h v vote hget).mpr hq⟩, rfl⟩

theorem passCount_eq : ((byVerifier reports).values.filter fun vote => vote.verdict = .PASS).length =
    (passing reports).card := by
  have hfinset : (((byVerifier reports).entries.filter fun e => e.2.verdict = .PASS).map
      Prod.fst).toFinset = passing reports := by
    ext v
    rw [List.mem_toFinset, mem_filter_entries (p := fun vote => decide (vote.verdict = .PASS))
      (q := fun v => v ∈ passing reports)]
    · exact ⟨And.right, fun h => ⟨(mem_passing.mp h).1, h⟩⟩
    · intro v vote hget
      obtain ⟨-, -, -, hverdict⟩ := get?_byVerifier hget
      rw [decide_eq_true_eq, hverdict]
  have hnodup : (((byVerifier reports).entries.filter fun e => e.2.verdict = .PASS).map
      Prod.fst).Nodup :=
    (byVerifier reports).nodup.sublist (List.filter_sublist.map _)
  rw [← hfinset, List.toFinset_card_of_nodup hnodup, List.length_map, JsMap.values,
    List.filter_map, List.length_map]
  rfl

theorem bundleAgreement_iff (hne : reports ≠ []) :
    ((byVerifier reports).values.map Vote.bundleHash).toFinset.card ≤ 1 ↔
      ∃ h, FirstsOn reports h := by
  have hmem : ∀ k, k ∈ ((byVerifier reports).values.map Vote.bundleHash).toFinset ↔
      ∃ v r, firstReport reports v = some r ∧ r.bundleHash = k := by
    intro k
    rw [List.mem_toFinset, List.mem_map]
    constructor
    · rintro ⟨vote, hvote, rfl⟩
      obtain ⟨v, hget⟩ := JsMap.mem_values.mp hvote
      obtain ⟨r, hr, hhash, -⟩ := get?_byVerifier hget
      exact ⟨v, r, hr, hhash.symm⟩
    · rintro ⟨v, r, hr, rfl⟩
      obtain ⟨hr', hid⟩ := mem_of_firstReport hr
      have hv : v ∈ (byVerifier reports).keys := by
        rw [← List.mem_toFinset, keys_byVerifier]
        exact mem_verifiers.mpr ⟨r, hr', hid⟩
      obtain ⟨vote, hget⟩ := JsMap.mem_keys.mp hv
      obtain ⟨s, hs, hhash, -⟩ := get?_byVerifier hget
      cases hr.symm.trans hs
      exact ⟨vote, JsMap.mem_values.mpr ⟨v, hget⟩, hhash⟩
  rw [Finset.card_le_one]
  constructor
  · intro hone
    obtain ⟨r, hr⟩ := List.exists_mem_of_ne_nil reports hne
    obtain ⟨s, hs⟩ := exists_firstReport (mem_verifiers.mpr ⟨r, hr, rfl⟩)
    refine ⟨s.bundleHash, fun v t ht => ?_⟩
    exact hone _ ((hmem _).mpr ⟨v, t, ht, rfl⟩) _ ((hmem _).mpr ⟨_, s, hs, rfl⟩)
  · rintro ⟨h, hfirsts⟩ a ha b hb
    obtain ⟨v, r, hr, rfl⟩ := (hmem a).mp ha
    obtain ⟨w, s, hs, rfl⟩ := (hmem b).mp hb
    rw [hfirsts v r hr, hfirsts w s hs]

/-! ## The verdict -/

/-- What a consensus of PASS takes. -/
structure Approved (reports : List VerifierReport) (minimumVerifiers : JsNumber) : Prop where
  quorum : atLeast (verifiers reports).card minimumVerifiers = true
  majority : (verifiers reports).card < 2 * (passing reports).card
  agreement : ∃ h, FirstsOn reports h

variable {consensusAt : JsString} {minimumVerifiers : JsNumber}

theorem verdict_eq_PASS :
    (aggregateVerifierReports consensusAt reports minimumVerifiers).verdict = .PASS ↔
      Approved reports minimumVerifiers := by
  by_cases hne : reports = []
  · subst hne
    simp only [aggregateVerifierReports, if_true, reduceCtorEq, false_iff]
    exact fun h => absurd h.majority (by decide)
  · have hmajority : ((passing reports).card : ℚ) > (verifiers reports).card / 2 ↔
        (verifiers reports).card < 2 * (passing reports).card := by
      rw [gt_iff_lt, div_lt_iff₀' (by norm_num)]
      exact_mod_cast Iff.rfl
    simp only [aggregateVerifierReports, if_neg hne, length_byVerifier, passCount_eq,
      bundleAgreement_iff hne, hmajority, decide_eq_true_eq, ite_eq_left_iff, reduceCtorEq,
      imp_false, not_not]
    exact ⟨fun h => ⟨h.1, h.2.2, h.2.1⟩, fun h => ⟨h.quorum, h.agreement, h.majority⟩⟩

theorem verdict_eq_FAIL :
    (aggregateVerifierReports consensusAt reports minimumVerifiers).verdict = .FAIL ↔
      ¬ Approved reports minimumVerifiers := by
  rw [← @verdict_eq_PASS _ consensusAt]
  cases (aggregateVerifierReports consensusAt reports minimumVerifiers).verdict <;> simp

theorem quorumReached_eq_true :
    (aggregateVerifierReports consensusAt reports minimumVerifiers).quorumReached = true ↔
      reports ≠ [] ∧ atLeast (verifiers reports).card minimumVerifiers = true := by
  by_cases hne : reports = []
  · simp [aggregateVerifierReports, hne]
  · simp [aggregateVerifierReports, hne, length_byVerifier]

theorem mem_dissenters {v : JsString} :
    v ∈ (aggregateVerifierReports consensusAt reports minimumVerifiers).dissenters ↔
      v ∈ verifiers reports ∧ ¬ (v ∈ passing reports ↔ Approved reports minimumVerifiers) := by
  by_cases hne : reports = []
  · subst hne
    simp [aggregateVerifierReports, verifiers]
  · generalize hverdict :
      (aggregateVerifierReports consensusAt reports minimumVerifiers).verdict = verdict
    have hdissenters :
        (aggregateVerifierReports consensusAt reports minimumVerifiers).dissenters =
          ((byVerifier reports).entries.filter fun e => e.2.verdict ≠ verdict).map Prod.fst := by
      rw [← hverdict]
      simp only [aggregateVerifierReports, if_neg hne]
    rw [hdissenters, mem_filter_entries (p := fun vote => decide (vote.verdict ≠ verdict))
      (q := fun v => ¬ (v ∈ passing reports ↔ Approved reports minimumVerifiers))]
    intro v vote hget
    obtain ⟨-, -, -, hvote⟩ := get?_byVerifier hget
    rw [decide_eq_true_eq, ne_eq, ← hvote, ← @verdict_eq_PASS _ consensusAt, hverdict]
    cases vote.verdict <;> cases verdict <;> simp

/-- Distinct verifiers are no more than the reports. -/
theorem isConsensusReached_of_quorumReached
    (h : (aggregateVerifierReports consensusAt reports minimumVerifiers).quorumReached = true) :
    isConsensusReached reports minimumVerifiers = true := by
  have hcard : (verifiers reports).card ≤ reports.length := by
    rw [verifiers, ← reports.length_map VerifierReport.verifierId]
    exact List.toFinset_card_le _
  exact atLeast_mono hcard (quorumReached_eq_true.mp h).2

/-! ## Safety -/

theorem verifiers_append_singleton (reports : List VerifierReport) (r : VerifierReport) :
    verifiers (reports ++ [r]) = insert r.verifierId (verifiers reports) := by
  ext v
  simp [verifiers, eq_comm]

theorem FirstsOn.of_append {r : VerifierReport} {h : JsString} (hall : FirstsOn (reports ++ [r]) h) :
    FirstsOn reports h := by
  intro v s hs
  apply hall v s
  rw [firstReport, List.find?_append, ← firstReport, hs]
  rfl

/-- A further report does not add a vote for among the verifiers that have reported. -/
theorem mem_passing_of_append {r : VerifierReport} {v : JsString}
    (hv : v ∈ passing (reports ++ [r])) (hmem : v ∈ verifiers reports) : v ∈ passing reports := by
  obtain ⟨-, h, hall⟩ := mem_passing.mp hv
  exact mem_passing.mpr ⟨hmem, h, fun s hs => hall s (List.mem_append_left _ hs)⟩

/-- Votes for are not added where the verifier has reported, or where the report is FAIL. -/
theorem Approved.of_append {r : VerifierReport}
    (hquorum : atLeast (verifiers reports).card minimumVerifiers = true)
    (hvote : ∀ v ∈ passing (reports ++ [r]), v ∈ verifiers reports)
    (h : Approved (reports ++ [r]) minimumVerifiers) : Approved reports minimumVerifiers := by
  obtain ⟨k, hfirsts⟩ := h.agreement
  have hpassing : (passing (reports ++ [r])).card ≤ (passing reports).card :=
    Finset.card_le_card fun v hv => mem_passing_of_append hv (hvote v hv)
  have hverifiers : (verifiers reports).card ≤ (verifiers (reports ++ [r])).card := by
    rw [verifiers_append_singleton]
    exact Finset.card_le_card (Finset.subset_insert _ _)
  have hmajority := h.majority
  exact ⟨hquorum, by omega, k, hfirsts.of_append⟩

/-- A consensus of PASS has the quorum of verifiers and more than half of them with PASS on one
bundle alone, the one of all first reports; and a report of a verifier that has reported, or one
of FAIL once there is a quorum, does not turn FAIL into PASS. -/
theorem consensus_safe (consensusAt consensusAt' : JsString) (reports : List VerifierReport)
    (minimumVerifiers : JsNumber) :
    ((aggregateVerifierReports consensusAt reports minimumVerifiers).verdict = .PASS →
      atLeast (verifiers reports).card minimumVerifiers = true ∧
      ∃ h, (verifiers reports).card < 2 * (endorsers reports h).card ∧ FirstsOn reports h) ∧
    ∀ r, (aggregateVerifierReports consensusAt reports minimumVerifiers).verdict = .FAIL →
      (r.verifierId ∈ verifiers reports ∨ r.verdict = .FAIL ∧
        atLeast (verifiers reports).card minimumVerifiers = true) →
      (aggregateVerifierReports consensusAt' (reports ++ [r]) minimumVerifiers).verdict =
        .FAIL := by
  constructor
  · intro hpass
    have happroved := verdict_eq_PASS.mp hpass
    obtain ⟨h, hfirsts⟩ := happroved.agreement
    refine ⟨happroved.quorum, h, ?_, hfirsts⟩
    rw [← passing_eq_endorsers hfirsts]
    exact happroved.majority
  · intro r hfail hr
    rw [verdict_eq_FAIL] at hfail ⊢
    intro happroved
    apply hfail
    rcases hr with hmem | ⟨hr, hquorum⟩
    · have hsame : verifiers (reports ++ [r]) = verifiers reports := by
        rw [verifiers_append_singleton, Finset.insert_eq_of_mem hmem]
      apply happroved.of_append (hsame ▸ happroved.quorum)
      exact fun v hv => hsame ▸ (mem_passing.mp hv).1
    · apply happroved.of_append hquorum
      intro v hv
      obtain ⟨hmem, h, hall⟩ := mem_passing.mp hv
      rw [verifiers_append_singleton, Finset.mem_insert] at hmem
      rcases hmem with rfl | hmem
      · -- the verifier of the report does not endorse a bundle
        have hverdict := (hall r (by simp) rfl).1
        rw [hr] at hverdict
        cases hverdict
      · exact hmem

/-- Two of three verifiers pass one bundle. -/
def splitReports : List VerifierReport :=
  [⟨js "x", .PASS, js "b1"⟩, ⟨js "y", .PASS, js "b1"⟩, ⟨js "z", .FAIL, js "b1"⟩]

/-- The quorum counts all that report: a minimum of three is met by two that pass. -/
theorem not_three_endorsers_splitReports :
    (aggregateVerifierReports (js "t") splitReports (.finite 3)).verdict = .PASS ∧
    ∀ h, atLeast (endorsers splitReports h).card (.finite 3) = false := by
  refine ⟨by decide +kernel, fun h => ?_⟩
  have hsub : endorsers splitReports h ⊆ {js "x", js "y"} := by
    intro v hv
    obtain ⟨hmem, hall⟩ := Finset.mem_filter.mp hv
    obtain ⟨r, hr, rfl⟩ := mem_verifiers.mp hmem
    have hpass := (hall r hr rfl).1
    simp only [splitReports, List.mem_cons, List.not_mem_nil, or_false] at hr
    rcases hr with rfl | rfl | rfl
    · exact Finset.mem_insert_self _ _
    · exact Finset.mem_insert_of_mem (Finset.mem_singleton_self _)
    · cases hpass
  have hcard : (endorsers splitReports h).card ≤ 2 :=
    (Finset.card_le_card hsub).trans (Finset.card_le_two)
  have htwo : atLeast 2 (.finite 3) = false := by decide +kernel
  exact Bool.eq_false_iff.mpr fun hthree => absurd (atLeast_mono hcard hthree) (by simp [htwo])

/-! ## The order of the reports -/

structure SameConsensus (p q : ConsensusResult) : Prop where
  verdict : p.verdict = q.verdict
  quorumReached : p.quorumReached = q.quorumReached
  dissenters : ∀ v, v ∈ p.dissenters ↔ v ∈ q.dissenters

def OrderIndependent (reports : List VerifierReport) (minimumVerifiers : JsNumber) : Prop :=
  ∀ reports', reports'.Perm reports → ∀ consensusAt consensusAt',
    SameConsensus (aggregateVerifierReports consensusAt reports minimumVerifiers)
      (aggregateVerifierReports consensusAt' reports' minimumVerifiers)

/-- There are votes enough to pass, and every verifier has a report on one bundle, but some have a
report on another as well. -/
structure Swayed (reports : List VerifierReport) (minimumVerifiers : JsNumber) : Prop where
  quorum : atLeast (verifiers reports).card minimumVerifiers = true
  majority : (verifiers reports).card < 2 * (passing reports).card
  split : ∃ h, (∀ v ∈ verifiers reports, ∃ r ∈ reports, r.verifierId = v ∧ r.bundleHash = h) ∧
    ∃ r ∈ reports, r.bundleHash ≠ h

theorem verifiers_perm {reports' : List VerifierReport} (h : reports'.Perm reports) :
    verifiers reports' = verifiers reports :=
  List.toFinset_eq_of_perm _ _ (h.map _)

theorem passing_perm {reports' : List VerifierReport} (h : reports'.Perm reports) :
    passing reports' = passing reports := by
  ext v
  rw [mem_passing, mem_passing, verifiers_perm h]
  simp only [Endorses, h.mem_iff]

/-- The order of the reports decides nothing but the bundles of the first ones. -/
theorem sameConsensus_iff {reports' : List VerifierReport} (hperm : reports'.Perm reports)
    {consensusAt' : JsString} :
    SameConsensus (aggregateVerifierReports consensusAt reports minimumVerifiers)
      (aggregateVerifierReports consensusAt' reports' minimumVerifiers) ↔
    (Approved reports minimumVerifiers ↔ Approved reports' minimumVerifiers) := by
  constructor
  · intro h
    rw [← @verdict_eq_PASS _ consensusAt, h.verdict, verdict_eq_PASS]
  · intro h
    refine ⟨?_, ?_, fun v => ?_⟩
    · by_cases hpass : Approved reports minimumVerifiers
      · rw [verdict_eq_PASS.mpr hpass, verdict_eq_PASS.mpr (h.mp hpass)]
      · rw [verdict_eq_FAIL.mpr hpass, verdict_eq_FAIL.mpr (mt h.mpr hpass)]
    · rw [Bool.eq_iff_iff, quorumReached_eq_true, quorumReached_eq_true, verifiers_perm hperm]
      have hnil : reports' = [] ↔ reports = [] :=
        ⟨fun h => List.nil_perm.mp (h ▸ hperm), fun h => List.perm_nil.mp (h ▸ hperm)⟩
      rw [ne_eq, ne_eq, hnil]
    · rw [mem_dissenters, mem_dissenters, verifiers_perm hperm, passing_perm hperm, h]

/-- The reports on one bundle in front of the others. -/
def bundleFirst (h : JsString) (reports : List VerifierReport) : List VerifierReport :=
  (reports.filter fun r => r.bundleHash = h) ++ reports.filter fun r => !decide (r.bundleHash = h)

/-- The reports on one bundle behind the others. -/
def bundleLast (h : JsString) (reports : List VerifierReport) : List VerifierReport :=
  (reports.filter fun r => !decide (r.bundleHash = h)) ++ reports.filter fun r => r.bundleHash = h

theorem bundleFirst_perm (h : JsString) (reports : List VerifierReport) :
    (bundleFirst h reports).Perm reports :=
  List.filter_append_perm _ _

theorem bundleLast_perm (h : JsString) (reports : List VerifierReport) :
    (bundleLast h reports).Perm reports :=
  List.perm_append_comm.trans (bundleFirst_perm h reports)

theorem firstReport_append_of_mem {front back : List VerifierReport} {s : VerifierReport}
    (hs : s ∈ front) {r : VerifierReport} (hr : firstReport (front ++ back) s.verifierId = some r) :
    r ∈ front := by
  obtain ⟨t, ht⟩ := exists_firstReport (mem_verifiers.mpr ⟨s, hs, rfl⟩)
  rw [firstReport, List.find?_append, ← firstReport, ht] at hr
  cases hr
  exact (mem_of_firstReport ht).1

theorem Swayed.approved_bundleFirst (h : Swayed reports minimumVerifiers) :
    ∃ reports', reports'.Perm reports ∧ Approved reports' minimumVerifiers := by
  obtain ⟨k, hall, -⟩ := h.split
  have hperm := bundleFirst_perm k reports
  refine ⟨bundleFirst k reports, hperm, ?_, ?_, k, ?_⟩
  · rw [verifiers_perm hperm]
    exact h.quorum
  · rw [verifiers_perm hperm, passing_perm hperm]
    exact h.majority
  · intro v r hr
    obtain ⟨hmem, rfl⟩ := mem_of_firstReport hr
    obtain ⟨s, hs, hid, hhash⟩ := hall _ (mem_verifiers.mpr ⟨r, hperm.mem_iff.mp hmem, rfl⟩)
    rw [← hid] at hr
    have hfront := firstReport_append_of_mem (List.mem_filter.mpr ⟨hs, by simpa using hhash⟩) hr
    simpa using (List.mem_filter.mp hfront).2

theorem Swayed.not_approved_bundleLast (h : Swayed reports minimumVerifiers) :
    ∃ reports', reports'.Perm reports ∧ ¬ Approved reports' minimumVerifiers := by
  obtain ⟨k, hall, s, hs, hne⟩ := h.split
  have hperm := bundleLast_perm k reports
  refine ⟨bundleLast k reports, hperm, fun happroved => ?_⟩
  obtain ⟨k', hfirsts⟩ := happroved.agreement
  -- a verifier whose vote is PASS is on the bundle that all have a report on
  have hpos : 0 < (passing reports).card := by
    have hmajority := h.majority
    omega
  obtain ⟨p, hp⟩ := Finset.card_pos.mp hpos
  obtain ⟨hmem, b, hb⟩ := mem_passing.mp hp
  obtain ⟨r, hr, hid, rfl⟩ := hall p hmem
  have hbundle : b = r.bundleHash := (hb r hr hid).2.symm
  have hp' : p ∈ verifiers (bundleLast r.bundleHash reports) := by
    rw [verifiers_perm hperm]
    exact hmem
  obtain ⟨t, ht⟩ := exists_firstReport hp'
  obtain ⟨ht', htid⟩ := mem_of_firstReport ht
  have hpass : k' = r.bundleHash := by
    rw [← hfirsts p t ht, (hb t (hperm.mem_iff.mp ht') htid).2, hbundle]
  -- the verifier of another report is not
  have hs' : s.verifierId ∈ verifiers (bundleLast r.bundleHash reports) := by
    rw [verifiers_perm hperm]
    exact mem_verifiers.mpr ⟨s, hs, rfl⟩
  obtain ⟨u, hu⟩ := exists_firstReport hs'
  have hfront := firstReport_append_of_mem (List.mem_filter.mpr ⟨hs, by simpa using hne⟩) hu
  have hother : u.bundleHash ≠ r.bundleHash := by simpa using (List.mem_filter.mp hfront).2
  exact hother ((hfirsts _ u hu).trans hpass)

theorem Approved.of_perm (h : Approved reports minimumVerifiers)
    (hswayed : ¬ Swayed reports minimumVerifiers) {reports' : List VerifierReport}
    (hperm : reports'.Perm reports) : Approved reports' minimumVerifiers := by
  obtain ⟨k, hfirsts⟩ := h.agreement
  have hall : ∀ r ∈ reports, r.bundleHash = k := by
    intro r hr
    by_contra hne
    refine hswayed ⟨h.quorum, h.majority, k, fun v hv => ?_, r, hr, hne⟩
    obtain ⟨s, hs⟩ := exists_firstReport hv
    obtain ⟨hmem, hid⟩ := mem_of_firstReport hs
    exact ⟨s, hmem, hid, hfirsts v s hs⟩
  refine ⟨?_, ?_, k, ?_⟩
  · rw [verifiers_perm hperm]
    exact h.quorum
  · rw [verifiers_perm hperm, passing_perm hperm]
    exact h.majority
  · intro v r hr
    exact hall r (hperm.mem_iff.mp (mem_of_firstReport hr).1)

theorem Swayed.of_perm (h : Swayed reports minimumVerifiers) {reports' : List VerifierReport}
    (hperm : reports'.Perm reports) : Swayed reports' minimumVerifiers := by
  obtain ⟨hquorum, hmajority, hsplit⟩ := h
  refine ⟨?_, ?_, ?_⟩
  · rwa [verifiers_perm hperm]
  · rwa [verifiers_perm hperm, passing_perm hperm]
  · simpa only [verifiers_perm hperm, hperm.mem_iff] using hsplit

/-- The order of the reports does not matter exactly where they do not sway the consensus. -/
theorem orderIndependent_iff (reports : List VerifierReport) (minimumVerifiers : JsNumber) :
    OrderIndependent reports minimumVerifiers ↔ ¬ Swayed reports minimumVerifiers := by
  constructor
  · intro h hswayed
    obtain ⟨first, hfirst, happroved⟩ := hswayed.approved_bundleFirst
    obtain ⟨last, hlast, hnot⟩ := hswayed.not_approved_bundleLast
    have hreports := (sameConsensus_iff hfirst).mp (h first hfirst [] [])
    exact hnot (((sameConsensus_iff hlast).mp (h last hlast [] [])).mp (hreports.mpr happroved))
  · intro h reports' hperm consensusAt consensusAt'
    rw [sameConsensus_iff hperm]
    constructor
    · exact fun happroved => happroved.of_perm h hperm
    · have hback : ¬ Swayed reports' minimumVerifiers := fun hs => h (hs.of_perm hperm.symm)
      exact fun happroved => happroved.of_perm hback hperm.symm

/-- Two verifiers pass one bundle, and a third one has a report on another as well. -/
def swayedReports (mixed : List VerifierReport) : List VerifierReport :=
  ⟨js "x", .PASS, js "b1"⟩ :: ⟨js "y", .PASS, js "b1"⟩ :: mixed

theorem not_orderIndependent_swayedReports :
    ¬ OrderIndependent (swayedReports [⟨js "v", .PASS, js "b1"⟩, ⟨js "v", .PASS, js "b2"⟩])
      (.finite 1) := by
  intro h
  have hsame := h (swayedReports [⟨js "v", .PASS, js "b2"⟩, ⟨js "v", .PASS, js "b1"⟩])
    (((List.Perm.swap _ _ _).cons _).cons _) [] []
  exact absurd hsame.verdict (by decide +kernel)

end Attestia.Verify
