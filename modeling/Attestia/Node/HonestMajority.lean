import Attestia.Node.PublicVerify
import Attestia.Verify.VerifierNode

/-!
# An honest majority

Honest verifiers run `runVerification` on the bundle that is published and submit their reports to
the public route; others submit what they like, in any order. The names are not authenticated: a
verifier is honest here where only its own reports bear its name. As long as the verifiers with a
report are not mostly dishonest, a consensus of PASS means that the bundle verifies. The first
report fixes the bundle of the round, so that anyone can keep the honest reports out of it.
-/

namespace Attestia.Verify

open Lib JsonNumber Ledger Registrum

variable {canonicalize : JsonValue → String} {readings : VerificationReadings}
  {bundle : ReplayableBundle}

/-! ## What a verification checks -/

/-- Both subsystems are restored from their snapshots, and hash as the snapshots do. -/
def Restores (canonicalize : JsonValue → String) (bundle : ReplayableBundle) : Prop :=
  ∃ ledger registrar, Ledger.fromSnapshot bundle.ledgerSnapshot = .ok ledger ∧
    Registrar.fromSnapshot bundle.registrumSnapshot (replayOptions bundle.registrumSnapshot) =
      .ok (some registrar) ∧
    hashLedgerSnapshot canonicalize (ledgerSnapshotObject bundle.ledgerSnapshot) =
      hashLedgerSnapshot canonicalize (ledgerSnapshotObject (Ledger.snapshot ledger [])) ∧
    hashRegistrumSnapshot canonicalize bundle.registrumSnapshot.value =
      hashRegistrumSnapshot canonicalize registrar.snapshot.value

/-- The bundle holds the hashes of its content and is restored to the same content; in strict mode
it carries hashes of chains. -/
structure Verifies (canonicalize : JsonValue → String) (strictMode : Option Bool)
    (bundle : ReplayableBundle) : Prop where
  consistent : Consistent canonicalize bundle.exported
  restores : Restores canonicalize bundle
  chains : strictMode = some true → (present bundle.globalStateHash.subsystems.chains).isSome

theorem mismatch_eq_nil {subsystem description : String} {expected actual : JsString} :
    mismatch subsystem expected actual description = [] ↔ expected = actual := by
  by_cases h : expected = actual <;> simp [mismatch, h]

/-- The global hash is that of the hashes of the subsystems. -/
theorem compareReplay_pass {replayedLedger : LedgerSnapshot} {replayedRegistrum : RawSnapshot}
    {originalAt replayedAt : JsString} :
    (compareReplay canonicalize (replayInput bundle) replayedLedger replayedRegistrum originalAt
      replayedAt).verdict = .PASS ↔
    hashLedgerSnapshot canonicalize (ledgerSnapshotObject bundle.ledgerSnapshot) =
        hashLedgerSnapshot canonicalize (ledgerSnapshotObject replayedLedger) ∧
      hashRegistrumSnapshot canonicalize bundle.registrumSnapshot.value =
        hashRegistrumSnapshot canonicalize replayedRegistrum.value := by
  refine verdicts_compareReplay.trans ?_
  rw [compareReplay]
  dsimp only [replayInput]
  rw [List.append_nil, List.append_eq_nil_iff, List.append_eq_nil_iff, mismatch_eq_nil,
    mismatch_eq_nil, mismatch_eq_nil, hash_computeGlobalStateHash, hash_computeGlobalStateHash]
  constructor
  · exact And.left
  · rintro ⟨hledger, hregistrum⟩
    exact ⟨⟨hledger, hregistrum⟩, by rw [hledger, hregistrum]⟩

/-- What a replay finds does not depend on the clock. -/
theorem replaysClean_iff :
    ReplaysClean canonicalize readings bundle ↔ Restores canonicalize bundle := by
  constructor
  · rintro ⟨result, hreplay, hpass⟩
    obtain ⟨ledger, hledger, hrest⟩ := bind_eq_ok.mp hreplay
    obtain ⟨restored, hregistrar, hresult⟩ := bind_eq_ok.mp hrest
    cases restored with
    | none => cases hresult
    | some registrar =>
      obtain rfl := Option.some.inj (Except.ok.inj hresult)
      obtain ⟨hledgerHash, hregistrumHash⟩ := compareReplay_pass.mp hpass
      refine ⟨ledger, registrar, mapError_eq_ok.mp hledger, mapError_eq_ok.mp hregistrar, ?_,
        hregistrumHash⟩
      rw [hledgerHash]
      exact hashLedgerSnapshot_createdAt ledger _ _
  · rintro ⟨ledger, registrar, hledger, hregistrar, hledgerHash, hregistrumHash⟩
    refine ⟨_, bind_eq_ok.mpr ⟨ledger, mapError_eq_ok.mpr hledger,
      bind_eq_ok.mpr ⟨some registrar, mapError_eq_ok.mpr hregistrar, rfl⟩⟩, ?_⟩
    refine compareReplay_pass.mpr ⟨hledgerHash.trans ?_, hregistrumHash⟩
    exact hashLedgerSnapshot_createdAt ledger _ _

theorem strictDiscrepancy_eq_nil_iff {strictMode : Option Bool} {chains : Option ChainHashes} :
    strictDiscrepancy strictMode chains = [] ↔
      (strictMode = some true → (present chains).isSome) := by
  rw [strictDiscrepancy]
  split
  · rename_i hstrict
    rw [discrepancy_eq_nil]
    exact (forall_prop_of_true (q := fun _ => _) hstrict).symm
  · rename_i hlax
    exact iff_of_true rfl fun hstrict => absurd hstrict hlax

/-- What a report of a verifier says. -/
theorem verdict_runVerification {config : VerifierConfig} {report : NodeReport}
    (h : runVerification canonicalize readings bundle config = .ok (some report)) :
    report.verifierId = config.verifierId ∧ report.bundleHash = bundle.bundleHash ∧
      (report.verdict = .PASS ↔ Verifies canonicalize config.strictMode bundle) := by
  obtain ⟨replayed, hreplay, h⟩ := bind_eq_ok.mp h
  cases replayed with
  | none => cases h
  | some result =>
    obtain rfl := Option.some.inj (Except.ok.inj h)
    refine ⟨rfl, rfl, ?_⟩
    have hresult := verdicts_of_verifyByReplay hreplay
    have hclean : result.verdict = .PASS ↔ Restores canonicalize bundle := by
      rw [← @replaysClean_iff _ readings]
      constructor
      · exact fun hpass => ⟨result, hreplay, hpass⟩
      · rintro ⟨other, hother, hpass⟩
        obtain rfl := Option.some.inj (Except.ok.inj (hreplay.symm.trans hother))
        exact hpass
    have hreplayed : result.verdict = .PASS ↔
        result.discrepancies.map VerificationDiscrepancy.description = [] := by
      rw [List.map_eq_nil_iff]
      exact hresult
    have hintegrity :
        (verifyBundleIntegrity canonicalize readings.integrityAt bundle.exported).verdict = .PASS ↔
          (verifyBundleIntegrity canonicalize readings.integrityAt
            bundle.exported).discrepancies = [] :=
      pass_iff
    rw [reportOf]
    dsimp only
    rw [pass_iff]
    simp only [List.append_eq_nil_iff, hashDiscrepancy_eq_nil, strictDiscrepancy_eq_nil_iff,
      ite_fail_eq_nil hreplayed, ite_fail_eq_nil hintegrity, verdict_eq_pass, hclean]
    dsimp only [computeGlobalStateHash]
    constructor
    · rintro ⟨⟨⟨⟨⟨hconsistent, hrestores⟩, -⟩, -⟩, -⟩, hchains⟩
      exact ⟨hconsistent, hrestores, hchains⟩
    · rintro ⟨hconsistent, hrestores, hchains⟩
      exact ⟨⟨⟨⟨⟨hconsistent, hrestores⟩, hconsistent.ledger⟩, hconsistent.registrum⟩,
        hconsistent.globalHash⟩, hchains⟩

theorem reportId_runVerification {config : VerifierConfig} {report : NodeReport}
    (h : runVerification canonicalize readings bundle config = .ok (some report)) :
    report.reportId =
      generateReportId canonicalize config.verifierId bundle.bundleHash readings.nonce := by
  obtain ⟨replayed, -, h⟩ := bind_eq_ok.mp h
  cases replayed with
  | none => cases h
  | some result =>
    obtain rfl := Option.some.inj (Except.ok.inj h)
    rfl

/-! ## Votes of honest verifiers -/

section votes

variable {reports : List VerifierReport} {minimumVerifiers : JsNumber} {honest : JsString → Prop}
  [DecidablePred honest] {hash : JsString} {holds : Prop}

/-- The reports of honest verifiers are on one bundle, and PASS where it holds. -/
def Truthful (reports : List VerifierReport) (honest : JsString → Prop) (hash : JsString)
    (holds : Prop) : Prop :=
  ∀ r ∈ reports, honest r.verifierId → r.bundleHash = hash ∧ (r.verdict = .PASS ↔ holds)

def dishonest (reports : List VerifierReport) (honest : JsString → Prop) [DecidablePred honest] :
    Finset JsString :=
  {v ∈ verifiers reports | ¬ honest v}

omit [DecidablePred honest] in
theorem Truthful.mem_passing (h : Truthful reports honest hash holds) {v : JsString}
    (hv : v ∈ verifiers reports) (hhonest : honest v) : v ∈ passing reports ↔ holds := by
  rw [Verify.mem_passing, and_iff_right hv]
  constructor
  · rintro ⟨k, hendorses⟩
    obtain ⟨r, hr, rfl⟩ := mem_verifiers.mp hv
    exact (h r hr hhonest).2.mp (hendorses r hr rfl).1
  · intro hholds
    refine ⟨hash, fun r hr hid => ?_⟩
    obtain ⟨hhash, hverdict⟩ := h r hr (hid ▸ hhonest)
    exact ⟨hverdict.mpr hholds, hhash⟩

/-- Where it does not hold, only dishonest verifiers pass. -/
theorem Truthful.holds_of_approved (h : Truthful reports honest hash holds)
    (hfew : 2 * (dishonest reports honest).card ≤ (verifiers reports).card)
    (happroved : Approved reports minimumVerifiers) : holds := by
  by_contra hnot
  have hsub : passing reports ⊆ dishonest reports honest := by
    intro v hv
    have hmem := (Verify.mem_passing.mp hv).1
    refine Finset.mem_filter.mpr ⟨hmem, fun hhonest => ?_⟩
    exact hnot ((h.mem_passing hmem hhonest).mp hv)
  have hcard := Finset.card_le_card hsub
  have hmajority := happroved.majority
  omega

theorem Truthful.approved_iff (h : Truthful reports honest hash holds)
    (hone : ∃ k, ∀ r ∈ reports, r.bundleHash = k)
    (hfew : 2 * (dishonest reports honest).card < (verifiers reports).card) :
    Approved reports minimumVerifiers ↔
      atLeast (verifiers reports).card minimumVerifiers = true ∧ holds := by
  constructor
  · exact fun happroved => ⟨happroved.quorum, h.holds_of_approved hfew.le happroved⟩
  · rintro ⟨hquorum, hholds⟩
    have hsub : (verifiers reports).filter honest ⊆ passing reports := by
      intro v hv
      obtain ⟨hmem, hhonest⟩ := Finset.mem_filter.mp hv
      exact (h.mem_passing hmem hhonest).mpr hholds
    have hcard := Finset.card_le_card hsub
    have hsplit := Finset.card_filter_add_card_filter_not (s := verifiers reports) honest
    obtain ⟨k, hk⟩ := hone
    refine ⟨hquorum, ?_, k, fun v r hr => hk r (mem_of_firstReport hr).1⟩
    rw [dishonest] at hfew
    omega

end votes

end Attestia.Verify

namespace Attestia.Node

open Lib JsonNumber Verify

/-! ## A round of public verification -/

inductive RoundEvent where
  /-- A verifier runs the verification of a bundle and submits the report, if there is one. -/
  | verify (bundle : ReplayableBundle) (config : VerifierConfig) (readings : VerificationReadings)
  /-- Anyone submits anything. -/
  | post (body : NodeReport)

def PublicStore.next (canonicalize : JsonValue → String) (maxReports : JsNumber) (s : PublicStore) :
    RoundEvent → PublicStore
  | .verify bundle config readings =>
    match runVerification canonicalize readings bundle config with
    | .ok (some report) => s.submit maxReports report
    | _ => s
  | .post body => s.submit maxReports body

def roundSystem (canonicalize : JsonValue → String) (maxReports : JsNumber) :
    System PublicStore RoundEvent where
  init s := s = ⟨[], []⟩
  next s event := some (s.next canonicalize maxReports event)

/-- Honest verifiers verify the bundle that is published, and nobody else submits under their
names. -/
def Abides (honest : JsString → Prop) (bundle : ReplayableBundle) (strictMode : Option Bool) :
    PublicStore → RoundEvent → Prop
  | _, .verify verified config _ =>
    honest config.verifierId → verified = bundle ∧ config.strictMode = strictMode
  | _, .post body => ¬ honest body.verifierId

def PublicStore.votes (s : PublicStore) : List VerifierReport :=
  s.reports.map NodeReport.toVerifierReport

section

variable {canonicalize : JsonValue → String} {maxReports : JsNumber} {s : PublicStore}
  {honest : JsString → Prop} {bundle : ReplayableBundle} {strictMode : Option Bool}

theorem mem_acceptReport {reports : List NodeReport} {body r : NodeReport}
    (h : r ∈ (acceptReport maxReports reports body).1) : r ∈ reports ∨ r = body := by
  rw [acceptReport] at h
  split at h
  · rename_i replaced hreplace
    obtain ⟨front, old, back, rfl, -, rfl⟩ := replaceReport_eq_some hreplace
    rcases List.mem_append.mp h with h | h
    · exact .inl (List.mem_append_left _ h)
    · rcases List.mem_cons.mp h with rfl | h
      · exact .inr rfl
      · exact .inl (List.mem_append_right _ (.tail _ h))
  · have hmem := (evict_suffix maxReports _).subset h
    exact (List.mem_append.mp hmem).imp id List.mem_singleton.mp

/-- A report that is stored was there before or is the one that is submitted, and then on the
bundle of the round. -/
theorem mem_submit {body r : NodeReport} (h : r ∈ (s.submit maxReports body).reports) :
    r ∈ s.reports ∨ r = body ∧
      ∀ first, s.reports.head? = some first → body.bundleHash = first.bundleHash := by
  rcases @submit_cases maxReports s body with heq | ⟨-, hhead, heq⟩
  · rw [heq] at h
    exact .inl h
  · rw [heq] at h
    exact (mem_acceptReport h).imp id fun hr => ⟨hr, hhead⟩

variable (canonicalize maxReports honest bundle strictMode) in
/-- What a step can do to the store. -/
theorem next_cases (s : PublicStore) (event : RoundEvent) :
    s.next canonicalize maxReports event = s ∨
    ∃ body, s.next canonicalize maxReports event = s.submit maxReports body ∧
      (Abides honest bundle strictMode s event → honest body.verifierId →
        body.bundleHash = bundle.bundleHash ∧
          (body.verdict = .PASS ↔ Verifies canonicalize strictMode bundle)) := by
  cases event with
  | verify verified config readings =>
    rw [PublicStore.next]
    split
    · rename_i report hreport
      obtain ⟨hid, hhash, hverdict⟩ := verdict_runVerification hreport
      refine .inr ⟨report, rfl, fun habides hhonest => ?_⟩
      obtain ⟨rfl, rfl⟩ := habides (hid ▸ hhonest)
      exact ⟨hhash, hverdict⟩
    · exact .inl rfl
  | post body => exact .inr ⟨body, rfl, fun habides hhonest => absurd hhonest habides⟩

/-- The reports of a round are on one bundle, and those of honest verifiers are true. -/
structure RoundInv (canonicalize : JsonValue → String) (honest : JsString → Prop)
    (bundle : ReplayableBundle) (strictMode : Option Bool) (s : PublicStore) : Prop where
  one : ∃ hash, ∀ r ∈ s.reports, r.bundleHash = hash
  truthful : Truthful s.votes honest bundle.bundleHash (Verifies canonicalize strictMode bundle)

theorem bundle_submit {body : NodeReport} {hash : JsString} (hne : s.reports ≠ [])
    (h : ∀ r ∈ s.reports, r.bundleHash = hash) :
    ∀ r ∈ (s.submit maxReports body).reports, r.bundleHash = hash := by
  intro r hr
  rcases mem_submit hr with hr | ⟨rfl, hhead⟩
  · exact h r hr
  · obtain ⟨first, rest, hreports⟩ := List.exists_cons_of_ne_nil hne
    have hfirst := h first (by rw [hreports]; exact .head _)
    rw [← hfirst]
    exact hhead first (by rw [hreports]; rfl)

theorem RoundInv.next (h : RoundInv canonicalize honest bundle strictMode s) {event : RoundEvent}
    (habides : Abides honest bundle strictMode s event) :
    RoundInv canonicalize honest bundle strictMode (s.next canonicalize maxReports event) := by
  rcases next_cases canonicalize maxReports honest bundle strictMode s event with
    heq | ⟨body, heq, hbody⟩
  · rw [heq]
    exact h
  · rw [heq]
    refine ⟨?_, ?_⟩
    · by_cases hne : s.reports = []
      · refine ⟨body.bundleHash, fun r hr => ?_⟩
        rcases mem_submit hr with hr | ⟨rfl, -⟩
        · rw [hne] at hr
          exact absurd hr List.not_mem_nil
        · rfl
      · obtain ⟨hash, hhash⟩ := h.one
        exact ⟨hash, bundle_submit hne hhash⟩
    · intro vote hvote hhonest
      obtain ⟨r, hr, rfl⟩ := List.mem_map.mp hvote
      rcases mem_submit hr with hr | ⟨rfl, -⟩
      · exact h.truthful _ (List.mem_map_of_mem hr) hhonest
      · exact hbody habides hhonest

theorem roundInv_of_reachable (h : (roundSystem canonicalize maxReports).ReachableVia
    (Abides honest bundle strictMode) s) : RoundInv canonicalize honest bundle strictMode s := by
  refine h.invariant ?_ ?_
  · rintro _ rfl
    exact ⟨⟨[], by simp⟩, by simp [Truthful, PublicStore.votes]⟩
  · intro s event s' hs habides hnext
    obtain rfl := Option.some.inj hnext
    exact hs.next habides

/-- As long as the verifiers with a report are not mostly dishonest, a consensus of PASS means that
the bundle verifies. While most of them are honest, the consensus is PASS exactly where it does and
there are verifiers enough. -/
theorem consensus_of_honest [DecidablePred honest]
    (h : (roundSystem canonicalize maxReports).ReachableVia (Abides honest bundle strictMode) s)
    (hfew : 2 * (dishonest s.votes honest).card ≤ (verifiers s.votes).card)
    (minimumVerifiers : Option JsNumber) (consensusAt : JsString) :
    ((consensus minimumVerifiers consensusAt s.reports).verdict = .PASS →
      Verifies canonicalize strictMode bundle) ∧
    (2 * (dishonest s.votes honest).card < (verifiers s.votes).card →
      ((consensus minimumVerifiers consensusAt s.reports).verdict = .PASS ↔
        atLeast (verifiers s.votes).card (minVerifiers minimumVerifiers) = true ∧
          Verifies canonicalize strictMode bundle)) := by
  have hinv := roundInv_of_reachable h
  have hverdict : (consensus minimumVerifiers consensusAt s.reports).verdict = .PASS ↔
      Approved s.votes (minVerifiers minimumVerifiers) := verdict_eq_PASS
  have hone : ∃ hash, ∀ vote ∈ s.votes, vote.bundleHash = hash := by
    obtain ⟨hash, hhash⟩ := hinv.one
    refine ⟨hash, fun vote hvote => ?_⟩
    obtain ⟨r, hr, rfl⟩ := List.mem_map.mp hvote
    exact hhash r hr
  rw [hverdict]
  exact ⟨hinv.truthful.holds_of_approved hfew, hinv.truthful.approved_iff hone⟩

/-! ### A round on another bundle -/

theorem ne_nil_of_evict (hmax : (JsNumber.finite 1).le maxReports = true)
    (reports : List NodeReport) (body : NodeReport) :
    evict maxReports (reports ++ [body]) ≠ [] := by
  induction reports with
  | nil =>
    have hone : maxReports.lt (.finite (([] : List NodeReport).length + 1 : ℕ)) = false :=
      JsNumber.not_lt_of_le hmax
    rw [List.nil_append, evict, hone, if_neg (by decide)]
    exact List.cons_ne_nil _ _
  | cons r rest ih =>
    rw [List.cons_append, evict]
    split
    · exact ih
    · exact List.cons_ne_nil _ _

theorem ne_nil_of_submit (hmax : (JsNumber.finite 1).le maxReports = true) (hne : s.reports ≠ [])
    (body : NodeReport) : (s.submit maxReports body).reports ≠ [] := by
  rcases @submit_cases maxReports s body with heq | ⟨-, -, heq⟩
  · rwa [heq]
  · rw [heq, acceptReport]
    split
    · rename_i replaced hreplace
      obtain ⟨front, old, back, -, -, rfl⟩ := replaceReport_eq_some hreplace
      simp
    · exact ne_nil_of_evict hmax _ _

/-- Once a report on another bundle is stored, no report of an honest verifier ever is. -/
theorem honest_lockedOut (hmax : (JsNumber.finite 1).le maxReports = true)
    (h : (roundSystem canonicalize maxReports).ReachableVia (Abides honest bundle strictMode) s)
    {first : NodeReport} (hfirst : first ∈ s.reports)
    (hother : first.bundleHash ≠ bundle.bundleHash) {events : List RoundEvent} {s' : PublicStore}
    (habides : ∀ event ∈ events, ∀ t, Abides honest bundle strictMode t event)
    (hrun : (roundSystem canonicalize maxReports).run s events = some s') :
    s'.reports ≠ [] ∧ ∀ r ∈ s'.reports, r.bundleHash = first.bundleHash ∧
      ¬ honest r.verifierId := by
  have hround : s'.reports ≠ [] ∧ ∀ r ∈ s'.reports, r.bundleHash = first.bundleHash := by
    obtain ⟨hash, hhash⟩ := (roundInv_of_reachable h).one
    have hs : s.reports ≠ [] ∧ ∀ r ∈ s.reports, r.bundleHash = first.bundleHash := by
      refine ⟨List.ne_nil_of_mem hfirst, fun r hr => ?_⟩
      rw [hhash r hr, hhash first hfirst]
    clear hhash h hfirst habides
    induction events generalizing s with
    | nil =>
      obtain rfl := Option.some.inj hrun
      exact hs
    | cons event events ih =>
      refine ih hrun ?_
      rcases next_cases canonicalize maxReports honest bundle strictMode s event with
        heq | ⟨body, heq, -⟩
      · rw [heq]
        exact hs
      · rw [heq]
        exact ⟨ne_nil_of_submit hmax hs.1 body, bundle_submit hs.1 hs.2⟩
  refine ⟨hround.1, fun r hr => ⟨hround.2 r hr, fun hhonest => hother ?_⟩⟩
  have htruthful := (roundInv_of_reachable (h.run habides hrun)).truthful
  rw [← hround.2 r hr]
  exact (htruthful _ (List.mem_map_of_mem hr) hhonest).1

/-! ### One honest verifier and another -/

theorem length_js_le (text : String) : (js text).length ≤ 2 * text.toList.length := by
  rw [js, JsString.units]
  induction text.toList with
  | nil => exact Nat.zero_le _
  | cons c cs ih =>
    have hchar : (JsString.utf16 c).length ≤ 2 := by
      rw [JsString.utf16]
      split <;> simp
    rw [List.flatMap_cons, List.length_append, List.length_cons]
    omega

theorem length_sha256Hex_le (data : String) : (sha256Hex data).length ≤ 128 := by
  refine (length_js_le _).trans ?_
  rw [hexEncode_length, sha256_length]

theorem sha256Hex_ne {data : String} (text : String) (h : text.toList.length ≠ 64) :
    sha256Hex data ≠ js text := by
  intro heq
  apply h
  rw [← js_injective heq, hexEncode_length, sha256_length]

theorem bundleHash_ne_nil (h : Consistent canonicalize bundle.exported) :
    bundle.bundleHash ≠ [] := by
  have heq := h.bundleHash
  dsimp only [ReplayableBundle.exported] at heq
  rw [heq, computeBundleHash]
  exact sha256Hex_ne "" (by decide)

/-- A report of PASS is not refused by the schema, unless for the chains of the bundle. -/
theorem schema_of_pass {readings : VerificationReadings} {config : VerifierConfig}
    {report : NodeReport}
    (h : runVerification canonicalize readings bundle config = .ok (some report))
    (hpass : report.verdict = .PASS) (hid : config.verifierId ≠ [])
    (hverifiedAt : readings.verifiedAt ≠ [])
    (hchains : bundle.globalStateHash.subsystems.chains = none) :
    SubmitReportSchema report = true := by
  have hverifies := (verdict_runVerification h).2.2.mp hpass
  have hconsistent := hverifies.consistent
  obtain ⟨replayed, -, h⟩ := bind_eq_ok.mp h
  cases replayed with
  | none => cases h
  | some result =>
    obtain rfl := Option.some.inj (Except.ok.inj h)
    have hshort : ∀ data, (sha256Hex data).length ≤ 1024 :=
      fun data => (length_sha256Hex_le data).trans (by decide)
    have hledger : bundle.globalStateHash.subsystems.ledger.length ≤ 1024 := by
      have heq := hconsistent.ledger
      dsimp only [ReplayableBundle.exported] at heq
      rw [heq]
      exact hshort _
    have hregistrum : bundle.globalStateHash.subsystems.registrum.length ≤ 1024 := by
      have heq := hconsistent.registrum
      dsimp only [ReplayableBundle.exported] at heq
      rw [heq]
      exact hshort _
    have hglobal : bundle.globalStateHash.hash.length ≤ 1024 := by
      have heq := hconsistent.globalHash
      dsimp only [ReplayableBundle.exported] at heq
      rw [heq]
      exact hshort _
    have hbundle := bundleHash_ne_nil hconsistent
    have hchecks : ((reportOf canonicalize readings bundle config result).subsystemChecks.all
        fun check => check.subsystem.length ≤ 256 && check.expected.length ≤ 1024 &&
          check.actual.length ≤ 1024) = true := by
      have hledgerName : (js "ledger").length ≤ 256 := by decide +kernel
      have hregistrumName : (js "registrum").length ≤ 256 := by decide +kernel
      have hglobalName : (js "global").length ≤ 256 := by decide +kernel
      simp only [reportOf, hchains, chainChecks, checkHash, computeGlobalStateHash,
        hashLedgerSnapshot, hashRegistrumSnapshot, List.append_nil, List.all_cons, List.all_nil,
        hledgerName, hregistrumName, hglobalName, hledger, hregistrum, hglobal, hshort,
        decide_true, Bool.and_true]
    have hlength : (reportOf canonicalize readings bundle config result).subsystemChecks.length ≤
        1000 := by
      simp [reportOf, hchains, chainChecks]
    have hdiscrepancies :
        (reportOf canonicalize readings bundle config result).discrepancies = [] := by
      unfold reportOf at hpass ⊢
      exact pass_iff.mp hpass
    have hreport : (reportOf canonicalize readings bundle config result).reportId ≠ [] := by
      dsimp only [reportOf, generateReportId]
      exact sha256Hex_ne "" (by decide)
    generalize hr : reportOf canonicalize readings bundle config result = report at *
    have hfields : report.verifierId = config.verifierId ∧ report.bundleHash = bundle.bundleHash ∧
        report.verifiedAt = readings.verifiedAt := by
      subst hr
      exact ⟨rfl, rfl, rfl⟩
    rw [SubmitReportSchema, hchecks, hdiscrepancies, hfields.1, hfields.2.1, hfields.2.2]
    simp [hreport, hid, hlength, hbundle, hverifiedAt]

end

/-- The bundle that is exported with these snapshots. -/
def exportedBundle (ledger : Ledger.LedgerSnapshot) (registrum : Registrum.RawSnapshot) :
    ReplayableBundle :=
  let bundle := createStateBundle JsonValue.canonicalText [] [] (ledgerSnapshotObject ledger)
    registrum.value [] none
  { ledgerSnapshot := ledger
    registrumSnapshot := registrum
    globalStateHash := bundle.globalStateHash
    eventHashes := bundle.eventHashes
    chainHashes := bundle.chainHashes
    exportedAt := bundle.exportedAt
    bundleHash := bundle.bundleHash }

theorem consistent_exportedBundle (ledger : Ledger.LedgerSnapshot)
    (registrum : Registrum.RawSnapshot) :
    Consistent JsonValue.canonicalText (exportedBundle ledger registrum).exported := by
  have hexported : (exportedBundle ledger registrum).exported =
      createStateBundle JsonValue.canonicalText [] [] (ledgerSnapshotObject ledger)
        registrum.value [] none := rfl
  rw [hexported]
  exact consistent_createStateBundle [] [] _ _ [] none

def emptyBundle : ReplayableBundle :=
  exportedBundle (Ledger.snapshot .new [])
    (Registrum.Registrar.new (.legacy Registrum.initialInvariants)).snapshot

theorem verifies_emptyBundle : Verifies JsonValue.canonicalText none emptyBundle := by
  refine ⟨consistent_exportedBundle _ _, ?_, fun h => ?_⟩
  · have hreach : (Registrum.registrarSystem (.legacy Registrum.initialInvariants)).ReachableVia
        Registrum.Registrar.Storing (.new (.legacy Registrum.initialInvariants)) := .init rfl
    have hlasting := (Registrum.lasting_of_run (fun _ _ _ ht => ht) hreach).1
    obtain ⟨restored, hrestored, hsnapshot⟩ :=
      fromSnapshot_replayOptions hlasting ⟨Registrum.initialInvariants, rfl, rfl⟩
    refine ⟨.new, restored, rfl, hrestored, rfl, ?_⟩
    rw [hsnapshot]
    rfl
  · cases h

/-- A report of a verifier that has verified nothing. -/
def blindReport (bundleHash : JsString) : NodeReport where
  verifierId := js "d"
  verdict := .PASS
  bundleHash := bundleHash
  reportId := js "r"
  subsystemChecks := []
  discrepancies := []
  verifiedAt := js "t"

theorem submit_first {body : NodeReport} (hschema : SubmitReportSchema body = true) :
    (PublicStore.mk [] []).submit (.finite 1000) body = ⟨[body], [body]⟩ := by
  rw [PublicStore.submit, submitReport, hschema]
  rfl

/-- A report on the bundle of the round, of a verifier that has none. -/
theorem submit_second {first body : NodeReport}
    (hschema : SubmitReportSchema body = true) (hreportId : first.reportId ≠ body.reportId)
    (hverifierId : first.verifierId ≠ body.verifierId)
    (hbundle : body.bundleHash = first.bundleHash) :
    (PublicStore.mk [first] [first]).submit (.finite 1000) body =
      ⟨[first, body], [first, body]⟩ := by
  have hnew : (List.any [first] fun r => r.reportId = body.reportId) = false := by
    simp [hreportId]
  have hreplace : replaceReport body [first] = none := by
    rw [replaceReport, if_neg hverifierId]
    rfl
  rw [PublicStore.submit, submitReport, hschema]
  dsimp only [List.head?_cons]
  rw [hnew, if_neg (by decide), if_neg (by decide), if_neg (not_not.mpr hbundle), acceptReport,
    hreplace]
  rfl

theorem card_pair {a b : VerifierReport} (h : a.verifierId ≠ b.verifierId) :
    (verifiers [a, b]).card = 2 := by
  rw [verifiers, List.toFinset_card_of_nodup] <;> simp [h]

/-- A consensus of two verifiers, of which one is honest. -/
theorem exists_consensus (hverifies : Verifies canonicalize none bundle)
    (hchains : bundle.globalStateHash.subsystems.chains = none) :
    ∃ s, (roundSystem canonicalize (.finite 1000)).ReachableVia
        (Abides (· = js "h") bundle none) s ∧
      2 * (dishonest s.votes (· = js "h")).card ≤ (verifiers s.votes).card ∧
      (consensus none (js "t") s.reports).verdict = .PASS := by
  let readings : VerificationReadings := ⟨[], [], [], [], [], js "n", js "t"⟩
  obtain ⟨report, hreport⟩ : ∃ report,
      runVerification canonicalize readings bundle ⟨js "h", none⟩ = .ok (some report) := by
    obtain ⟨result, hresult, -⟩ := (@replaysClean_iff _ readings _).mpr hverifies.restores
    exact ⟨_, bind_eq_ok.mpr ⟨some result, hresult, rfl⟩⟩
  obtain ⟨hid, hhash, hverdict⟩ := verdict_runVerification hreport
  have hpass := hverdict.mpr hverifies
  have hschema := schema_of_pass hreport hpass (by decide) (by decide) hchains
  have hblind : SubmitReportSchema (blindReport bundle.bundleHash) = true := by
    have hne := bundleHash_ne_nil hverifies.consistent
    have hfields : js "r" ≠ [] ∧ js "d" ≠ [] ∧ js "t" ≠ [] := by decide +kernel
    simp [SubmitReportSchema, blindReport, hne, hfields]
  have hverifierId : js "d" ≠ report.verifierId := by
    rw [hid]
    decide +kernel
  have hreportId : js "r" ≠ report.reportId := by
    rw [reportId_runVerification hreport]
    exact (sha256Hex_ne _ (by decide)).symm
  let first := blindReport bundle.bundleHash
  have hreach : (roundSystem canonicalize (.finite 1000)).ReachableVia
      (Abides (· = js "h") bundle none) ⟨[first, report], [first, report]⟩ := by
    refine .step (e := RoundEvent.verify bundle ⟨js "h", none⟩ readings)
      (.step (e := RoundEvent.post (blindReport bundle.bundleHash)) (.init rfl) ?_
        (congrArg some (submit_first hblind))) (fun _ => ⟨rfl, rfl⟩) (congrArg some ?_)
    · exact show js "d" ≠ js "h" by decide +kernel
    · rw [PublicStore.next, hreport]
      exact submit_second hschema hreportId hverifierId hhash
  have hcard : (verifiers [first.toVerifierReport, report.toVerifierReport]).card = 2 :=
    card_pair hverifierId
  refine ⟨_, hreach, ?_, ?_⟩
  · have hsub : dishonest [first.toVerifierReport, report.toVerifierReport] (· = js "h") ⊆
        {js "d"} := by
      intro v hv
      obtain ⟨hmem, hne⟩ := Finset.mem_filter.mp hv
      obtain ⟨r, hr, rfl⟩ := mem_verifiers.mp hmem
      rcases List.mem_cons.mp hr with rfl | hr
      · exact Finset.mem_singleton_self _
      · rw [List.mem_singleton.mp hr] at hne
        exact absurd hid hne
    have hle := Finset.card_le_card hsub
    rw [Finset.card_singleton] at hle
    change 2 * (dishonest [first.toVerifierReport, report.toVerifierReport] _).card ≤
      (verifiers [first.toVerifierReport, report.toVerifierReport]).card
    omega
  · have hall : ∀ r ∈ [first.toVerifierReport, report.toVerifierReport],
        r.verdict = .PASS ∧ r.bundleHash = bundle.bundleHash := by
      intro r hr
      rcases List.mem_cons.mp hr with rfl | hr
      · exact ⟨rfl, rfl⟩
      · rw [List.mem_singleton.mp hr]
        exact ⟨hpass, hhash⟩
    have hsub : verifiers [first.toVerifierReport, report.toVerifierReport] ⊆
        passing [first.toVerifierReport, report.toVerifierReport] := by
      intro v hv
      exact mem_passing.mpr ⟨hv, bundle.bundleHash, fun r hr _ => hall r hr⟩
    have hle := Finset.card_le_card hsub
    refine verdict_eq_PASS.mpr ⟨?_, ?_, bundle.bundleHash, fun v r hr => ?_⟩
    · change atLeast (verifiers [first.toVerifierReport, report.toVerifierReport]).card _ = true
      rw [hcard]
      decide +kernel
    · change (verifiers [first.toVerifierReport, report.toVerifierReport]).card <
        2 * (passing [first.toVerifierReport, report.toVerifierReport]).card
      omega
    · exact (hall r (mem_of_firstReport hr).1).2

theorem consensus_of_honest_emptyBundle :
    ∃ s, (roundSystem JsonValue.canonicalText (.finite 1000)).ReachableVia
        (Abides (· = js "h") emptyBundle none) s ∧
      (consensus none (js "t") s.reports).verdict = .PASS ∧
      Verifies JsonValue.canonicalText none emptyBundle := by
  obtain ⟨s, hs, hfew, hpass⟩ := exists_consensus verifies_emptyBundle rfl
  exact ⟨s, hs, hpass, (consensus_of_honest hs hfew none (js "t")).1 hpass⟩

/-- A report on another bundle that comes first. -/
theorem honest_lockedOut_emptyBundle :
    ∃ s, (roundSystem JsonValue.canonicalText (.finite 1000)).run ⟨[], []⟩
        [.post (blindReport (js "other")), .verify emptyBundle ⟨js "h", none⟩ stillReadings] =
          some s ∧ ∀ r ∈ s.reports, r.verifierId ≠ js "h" := by
  have hblind : SubmitReportSchema (blindReport (js "other")) = true := by decide +kernel
  have hfirst : (roundSystem JsonValue.canonicalText (.finite 1000)).ReachableVia
      (Abides (· = js "h") emptyBundle none)
        ⟨[blindReport (js "other")], [blindReport (js "other")]⟩ :=
    .step (e := RoundEvent.post (blindReport (js "other"))) (.init rfl)
      (show js "d" ≠ js "h" by decide +kernel) (congrArg some (submit_first hblind))
  have hother : js "other" ≠ emptyBundle.bundleHash := by
    have heq := verifies_emptyBundle.consistent.bundleHash
    dsimp only [ReplayableBundle.exported] at heq
    rw [heq, computeBundleHash]
    exact (sha256Hex_ne _ (by decide)).symm
  have habides : ∀ event ∈ [RoundEvent.verify emptyBundle ⟨js "h", none⟩ stillReadings],
      ∀ t, Abides (· = js "h") emptyBundle none t event := by
    intro event hevent t
    rw [List.mem_singleton.mp hevent]
    exact fun _ => ⟨rfl, rfl⟩
  have hlocked := honest_lockedOut (by decide +kernel) hfirst (List.mem_singleton_self _) hother
    habides rfl
  refine ⟨_, ?_, fun r hr => (hlocked.2 r hr).2⟩
  rw [System.run]
  exact congrArg (Option.bind · _) (congrArg some (submit_first hblind))

end Attestia.Node
