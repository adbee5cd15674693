import Attestia.Lib.Fifo
import Attestia.Lib.System
import Attestia.Verify.VerifierNode

/-!
# Public verification

`public-verify.ts`: reports are submitted without authentication and kept up to a cap. A verifier
has one report at a time, and all of them are about one bundle.
-/

namespace Attestia.Node

open Lib Verify

/-- The schema of a body. A verdict is one of the two by its type. -/
def SubmitReportSchema (body : NodeReport) : Bool :=
  body.reportId ≠ [] && body.verifierId ≠ [] &&
    (body.subsystemChecks.all fun check => check.subsystem.length ≤ 256 &&
      check.expected.length ≤ 1024 && check.actual.length ≤ 1024) &&
    body.subsystemChecks.length ≤ 1000 &&
    (body.discrepancies.all fun text => text.length ≤ 1024) && body.discrepancies.length ≤ 1000 &&
    body.bundleHash ≠ [] && body.verifiedAt ≠ []

inductive SubmitResponse where
  | invalid
  | conflict (message : JsString) (hint : Option JsString)
  | created (reportId : JsString) (replaced : Bool) (totalReports : ℕ)

/-- The first report of the verifier, if there is one, is replaced. -/
def replaceReport (body : NodeReport) : List NodeReport → Option (List NodeReport)
  | [] => none
  | r :: rs =>
    if r.verifierId = body.verifierId then some (body :: rs)
    else (replaceReport body rs).map (r :: ·)

def acceptReport (maxReports : JsNumber) (reports : List NodeReport) (body : NodeReport) :
    List NodeReport × SubmitResponse :=
  match replaceReport body reports with
  | some replaced => (replaced, .created body.reportId true replaced.length)
  | none =>
    let kept := evict maxReports (reports ++ [body])
    (kept, .created body.reportId false kept.length)

def submitReport (maxReports : JsNumber) (reports : List NodeReport) (body : NodeReport) :
    List NodeReport × SubmitResponse :=
  if !SubmitReportSchema body then (reports, .invalid)
  else if reports.any fun r => r.reportId = body.reportId then
    (reports, .conflict (js "Report " ++ body.reportId ++ js " already submitted") none)
  else
    match reports.head? with
    | none => acceptReport maxReports reports body
    | some first =>
      if body.bundleHash ≠ first.bundleHash then
        (reports, .conflict
          (js "Report bundleHash disagrees with the established bundle for this verification")
          (some (js ("Submit a report for the current bundle hash, or wait for a new verification " ++
            "round."))))
      else acceptReport maxReports reports body

/-- `Math.max`. -/
def mathMax (a b : JsNumber) : JsNumber :=
  if a = .nan ∨ b = .nan then .nan else if a.lt b then b else a

def PUBLIC_MIN_VERIFIERS : JsNumber := .finite 2

def minVerifiers (minimumVerifiers : Option JsNumber) : JsNumber :=
  mathMax (minimumVerifiers.getD PUBLIC_MIN_VERIFIERS) PUBLIC_MIN_VERIFIERS

def consensus (minimumVerifiers : Option JsNumber) (consensusAt : JsString)
    (reports : List NodeReport) : ConsensusResult :=
  aggregateVerifierReports consensusAt (reports.map NodeReport.toVerifierReport)
    (minVerifiers minimumVerifiers)

/-! ## Runs -/

/-- The reports that are stored, and those that have ever been accepted. -/
structure PublicStore where
  reports : List NodeReport
  accepted : List NodeReport

def PublicStore.submit (maxReports : JsNumber) (s : PublicStore) (body : NodeReport) :
    PublicStore :=
  match submitReport maxReports s.reports body with
  | (reports, .created _ _ _) => ⟨reports, s.accepted ++ [body]⟩
  | (reports, _) => ⟨reports, s.accepted⟩

def publicSystem (maxReports : JsNumber) : System PublicStore NodeReport where
  init s := s = ⟨[], []⟩
  next s body := some (s.submit maxReports body)

/-- The last report of a verifier that has been accepted. -/
def latest (accepted : List NodeReport) (verifierId : JsString) : Option NodeReport :=
  (accepted.filter fun r => r.verifierId = verifierId).getLast?

theorem latest_append_self (accepted : List NodeReport) (body : NodeReport) :
    latest (accepted ++ [body]) body.verifierId = some body := by
  simp [latest]

theorem latest_append_of_ne {accepted : List NodeReport} {body : NodeReport}
    {verifierId : JsString} (h : body.verifierId ≠ verifierId) :
    latest (accepted ++ [body]) verifierId = latest accepted verifierId := by
  simp [latest, h]

/-- What the reports of a store are. -/
structure OneVoteEach (maxReports : JsNumber) (s : PublicStore) : Prop where
  verifiers : (s.reports.map fun r => r.verifierId).Nodup
  ids : (s.reports.map NodeReport.reportId).Nodup
  bundle : ∃ h, ∀ r ∈ s.reports, r.bundleHash = h
  cap : (JsNumber.finite s.reports.length).le maxReports = true
  latest : ∀ r ∈ s.reports, latest s.accepted r.verifierId = some r

section

variable {maxReports : JsNumber} {s : PublicStore} {body : NodeReport}

theorem replaceReport_eq_none {reports : List NodeReport} (h : replaceReport body reports = none) :
    ∀ r ∈ reports, r.verifierId ≠ body.verifierId := by
  induction reports with
  | nil => exact fun r hr => absurd hr List.not_mem_nil
  | cons r rs ih =>
    rw [replaceReport] at h
    split at h
    · cases h
    · rename_i hne
      exact List.forall_mem_cons.mpr ⟨hne, ih (Option.map_eq_none_iff.mp h)⟩

theorem replaceReport_eq_some {reports replaced : List NodeReport}
    (h : replaceReport body reports = some replaced) : ∃ front old back,
      reports = front ++ old :: back ∧ old.verifierId = body.verifierId ∧
        replaced = front ++ body :: back := by
  induction reports generalizing replaced with
  | nil => cases h
  | cons r rs ih =>
    rw [replaceReport] at h
    split at h
    · rename_i heq
      cases h
      exact ⟨[], r, rs, rfl, heq, rfl⟩
    · obtain ⟨rest, hrest, rfl⟩ := Option.map_eq_some_iff.mp h
      obtain ⟨front, old, back, rfl, hold, rfl⟩ := ih hrest
      exact ⟨r :: front, old, back, rfl, hold, rfl⟩

/-- A report that is accepted has a new id, and is about the bundle of the others. -/
theorem submit_cases (s : PublicStore) (body : NodeReport) : s.submit maxReports body = s ∨
    (∀ r ∈ s.reports, r.reportId ≠ body.reportId) ∧
      (∀ first, s.reports.head? = some first → body.bundleHash = first.bundleHash) ∧
      s.submit maxReports body =
        ⟨(acceptReport maxReports s.reports body).1, s.accepted ++ [body]⟩ := by
  have haccept : ∃ id replaced total, (acceptReport maxReports s.reports body).2 =
      .created id replaced total := by
    rw [acceptReport]
    split <;> exact ⟨_, _, _, rfl⟩
  rw [PublicStore.submit, submitReport]
  by_cases hvalid : SubmitReportSchema body = true
  · rw [hvalid, Bool.not_true, if_neg (by decide)]
    by_cases hnew : s.reports.any (fun r => r.reportId = body.reportId) = true
    · rw [if_pos hnew]
      exact .inl rfl
    · rw [if_neg hnew]
      have hids : ∀ r ∈ s.reports, r.reportId ≠ body.reportId := by
        intro r hr heq
        exact hnew (List.any_eq_true.mpr ⟨r, hr, by simpa using heq⟩)
      obtain ⟨id, replaced, total, hcreated⟩ := haccept
      have hpair : acceptReport maxReports s.reports body =
          ((acceptReport maxReports s.reports body).1, .created id replaced total) :=
        Prod.ext rfl hcreated
      cases hhead : s.reports.head? with
      | none =>
        refine .inr ⟨hids, ?_, ?_⟩
        · intro first hfirst
          cases hfirst
        · dsimp only
          rw [hpair]
      | some first =>
        dsimp only
        by_cases hbundle : body.bundleHash = first.bundleHash
        · refine .inr ⟨hids, ?_, ?_⟩
          · intro other hother
            cases hother
            exact hbundle
          · rw [if_neg (not_not.mpr hbundle), hpair]
        · rw [if_pos hbundle]
          exact .inl rfl
  · rw [Bool.not_eq_true] at hvalid
    rw [hvalid, Bool.not_false, if_pos rfl]
    exact .inl rfl

/-- The bundle of a store in which a report is accepted is that of the report. -/
theorem bundle_of_head (h : OneVoteEach maxReports s)
    (hhead : ∀ first, s.reports.head? = some first → body.bundleHash = first.bundleHash) :
    ∀ r ∈ s.reports, r.bundleHash = body.bundleHash := by
  obtain ⟨hash, hhash⟩ := h.bundle
  intro r hr
  obtain ⟨first, rest, hreports⟩ := List.exists_cons_of_ne_nil (List.ne_nil_of_mem hr)
  have hfirst : first ∈ s.reports := by
    rw [hreports]
    exact .head _
  rw [hhead first (by rw [hreports]; rfl), hhash r hr, hhash first hfirst]

theorem OneVoteEach.replaced (h : OneVoteEach maxReports s)
    (hids : ∀ r ∈ s.reports, r.reportId ≠ body.reportId)
    (hbundle : ∀ r ∈ s.reports, r.bundleHash = body.bundleHash) {replaced : List NodeReport}
    (hreplace : replaceReport body s.reports = some replaced) :
    OneVoteEach maxReports ⟨replaced, s.accepted ++ [body]⟩ := by
  obtain ⟨front, old, back, hreports, hold, rfl⟩ := replaceReport_eq_some hreplace
  obtain ⟨hverifiers, hreportIds, -, hcap, hlatest⟩ := h
  rw [hreports] at hids hbundle hverifiers hreportIds hcap hlatest
  -- the other reports are the old ones, of other verifiers
  have hothers : ∀ r ∈ front ++ body :: back, r = body ∨
      r ∈ front ++ old :: back ∧ r.verifierId ≠ body.verifierId := by
    intro r hr
    rw [List.map_append, List.map_cons, List.nodup_middle, List.nodup_cons, ← List.map_append,
      hold] at hverifiers
    have hne : ∀ q ∈ front ++ back, q.verifierId ≠ body.verifierId := fun q hq heq =>
      hverifiers.1 (heq ▸ List.mem_map_of_mem hq)
    rcases List.mem_append.mp hr with hr | hr
    · exact .inr ⟨List.mem_append_left _ hr, hne r (List.mem_append_left _ hr)⟩
    · rcases List.mem_cons.mp hr with rfl | hr
      · exact .inl rfl
      · exact .inr ⟨List.mem_append_right _ (.tail _ hr), hne r (List.mem_append_right _ hr)⟩
  refine ⟨?_, ?_, ⟨body.bundleHash, fun r hr => ?_⟩, ?_, fun r hr => ?_⟩
  · simpa [hold] using hverifiers
  · dsimp only
    rw [List.map_append, List.map_cons, List.nodup_middle, List.nodup_cons] at hreportIds ⊢
    refine ⟨?_, hreportIds.2⟩
    rw [← List.map_append]
    intro hmem
    obtain ⟨r, hr, heq⟩ := List.mem_map.mp hmem
    refine hids r ?_ heq
    rcases List.mem_append.mp hr with hr | hr
    · exact List.mem_append_left _ hr
    · exact List.mem_append_right _ (.tail _ hr)
  · rcases hothers r hr with rfl | ⟨hmem, -⟩
    · rfl
    · exact hbundle r hmem
  · simpa using hcap
  · dsimp only
    rcases hothers r hr with rfl | ⟨hmem, hne⟩
    · exact latest_append_self _ _
    · rw [latest_append_of_ne hne.symm]
      exact hlatest r hmem

theorem OneVoteEach.appended (hmax : (JsNumber.finite 1).le maxReports = true)
    (h : OneVoteEach maxReports s) (hids : ∀ r ∈ s.reports, r.reportId ≠ body.reportId)
    (hbundle : ∀ r ∈ s.reports, r.bundleHash = body.bundleHash)
    (hnew : ∀ r ∈ s.reports, r.verifierId ≠ body.verifierId) :
    OneVoteEach maxReports ⟨evict maxReports (s.reports ++ [body]), s.accepted ++ [body]⟩ := by
  have hsuffix := evict_suffix maxReports (s.reports ++ [body])
  have hnodup : ∀ f : NodeReport → JsString, (s.reports.map f).Nodup →
      (∀ r ∈ s.reports, f r ≠ f body) →
        ((evict maxReports (s.reports ++ [body])).map f).Nodup := by
    intro f hf hne
    refine List.Nodup.sublist (hsuffix.sublist.map f) ?_
    rw [List.map_append, List.map_singleton, List.nodup_append]
    refine ⟨hf, List.nodup_singleton _, ?_⟩
    intro a ha b hb
    obtain ⟨r, hr, rfl⟩ := List.mem_map.mp ha
    rw [List.mem_singleton.mp hb]
    exact hne r hr
  have hmem : ∀ r ∈ evict maxReports (s.reports ++ [body]), r ∈ s.reports ∨ r = body := by
    intro r hr
    exact (List.mem_append.mp (hsuffix.subset hr)).imp id List.mem_singleton.mp
  refine ⟨hnodup _ h.verifiers hnew, hnodup _ h.ids hids, ⟨body.bundleHash, fun r hr => ?_⟩,
    length_evict_le hmax _, fun r hr => ?_⟩
  · rcases hmem r hr with hr | rfl
    · exact hbundle r hr
    · rfl
  · dsimp only
    rcases hmem r hr with hr | rfl
    · rw [latest_append_of_ne (hnew r hr).symm]
      exact h.latest r hr
    · exact latest_append_self _ _

theorem OneVoteEach.submit (hmax : (JsNumber.finite 1).le maxReports = true)
    (h : OneVoteEach maxReports s) (body : NodeReport) :
    OneVoteEach maxReports (s.submit maxReports body) := by
  rcases @submit_cases maxReports s body with heq | ⟨hids, hhead, heq⟩
  · rw [heq]
    exact h
  · have hbundle := bundle_of_head h hhead
    rw [heq, acceptReport]
    cases hreplace : replaceReport body s.reports with
    | none => exact h.appended hmax hids hbundle (replaceReport_eq_none hreplace)
    | some replaced => exact h.replaced hids hbundle hreplace

end

theorem oneVoteEach_of_reachable {maxReports : JsNumber} {s : PublicStore}
    (hmax : (JsNumber.finite 1).le maxReports = true) (h : (publicSystem maxReports).Reachable s) :
    OneVoteEach maxReports s := by
  refine System.Reachable.invariant ?_ ?_ h
  · rintro s rfl
    exact ⟨List.nodup_nil, List.nodup_nil, ⟨[], by simp⟩, finite_zero_le hmax, by simp⟩
  · intro s body s' hs hnext
    cases hnext
    exact hs.submit hmax body

/-! ## Consensus -/

/-- The stored verifiers whose last accepted report is PASS on a bundle. -/
def PublicStore.passers (s : PublicStore) (bundleHash : JsString) : List JsString :=
  (s.reports.map fun r => r.verifierId).filter fun v =>
    (latest s.accepted v).any fun r => r.verdict = .PASS ∧ r.bundleHash = bundleHash

theorem OneVoteEach.card_verifiers {maxReports : JsNumber} {s : PublicStore}
    (h : OneVoteEach maxReports s) :
    (Verify.verifiers (s.reports.map NodeReport.toVerifierReport)).card = s.reports.length := by
  have hmap : (s.reports.map NodeReport.toVerifierReport).map VerifierReport.verifierId =
      s.reports.map fun r => r.verifierId := by
    rw [List.map_map]
    rfl
  rw [Verify.verifiers, hmap, List.toFinset_card_of_nodup h.verifiers, List.length_map]

theorem OneVoteEach.card_passing_le {maxReports : JsNumber} {s : PublicStore}
    (h : OneVoteEach maxReports s) {hash : JsString} (hhash : ∀ r ∈ s.reports, r.bundleHash = hash) :
    (Verify.passing (s.reports.map NodeReport.toVerifierReport)).card ≤ (s.passers hash).length := by
  have hsub : Verify.passing (s.reports.map NodeReport.toVerifierReport) ⊆ (s.passers hash).toFinset := by
    intro v hv
    obtain ⟨hmem, bundle, hendorses⟩ := mem_passing.mp hv
    obtain ⟨report, hreport, rfl⟩ := mem_verifiers.mp hmem
    obtain ⟨r, hr, rfl⟩ := List.mem_map.mp hreport
    have hpass : r.verdict = .PASS := (hendorses _ hreport rfl).1
    rw [List.mem_toFinset]
    apply List.mem_filter.mpr
    refine ⟨List.mem_map_of_mem hr, ?_⟩
    rw [h.latest r hr]
    simp [hpass, hhash r hr]
  exact (Finset.card_le_card hsub).trans (List.toFinset_card_le _)

theorem le_mathMax {a b : JsNumber} {n : ℕ} (h : (mathMax a b).le (.finite n) = true) :
    b.le (.finite n) = true := by
  rw [mathMax] at h
  split at h
  · cases h
  · split at h
    · exact h
    · rename_i hnan hlt
      rw [Bool.not_eq_true] at hlt
      have hle : b.le a = true := by
        rcases a with p | x | _ <;> rcases b with q | y | _ <;>
          simp only [JsNumber.le, JsNumber.lt, JsNumber.same, Bool.or_eq_true, decide_eq_true_eq,
            decide_eq_false_iff_not, not_or, reduceCtorEq, not_true_eq_false] at * <;> grind
      exact JsNumber.le_of_le_of_le hle h

/-- The reports that are stored are one for each verifier, and about one bundle. A consensus of PASS
is that of as many verifiers as are asked for, at least two, and of more than half of them PASS. -/
theorem public_consensus {maxReports : JsNumber} (hmax : (JsNumber.finite 1).le maxReports = true)
    {s : PublicStore} (h : (publicSystem maxReports).Reachable s) :
    OneVoteEach maxReports s ∧ ∀ minimumVerifiers consensusAt,
      (consensus minimumVerifiers consensusAt s.reports).verdict = .PASS →
      ∃ hash, (∀ r ∈ s.reports, r.bundleHash = hash) ∧
        (minVerifiers minimumVerifiers).le (.finite s.reports.length) = true ∧
        2 ≤ s.reports.length ∧ (s.passers hash).Nodup ∧
        s.reports.length < 2 * (s.passers hash).length ∧ 2 ≤ (s.passers hash).length := by
  have hstore := oneVoteEach_of_reachable hmax h
  refine ⟨hstore, fun minimumVerifiers consensusAt hverdict => ?_⟩
  obtain ⟨hash, hhash⟩ := hstore.bundle
  obtain ⟨hquorum, hmajority, -⟩ := verdict_eq_PASS.mp hverdict
  rw [hstore.card_verifiers] at hquorum hmajority
  have hpassers := hstore.card_passing_le hhash
  have htwo : 2 ≤ s.reports.length := by
    have hle := le_mathMax hquorum
    simp only [PUBLIC_MIN_VERIFIERS, JsNumber.le, JsNumber.lt, JsNumber.same, Bool.or_eq_true,
      decide_eq_true_eq] at hle
    exact_mod_cast le_iff_lt_or_eq.mpr hle
  exact ⟨hash, hhash, hquorum, htwo, hstore.verifiers.filter _, by omega, by omega⟩

/-! ### Two of three verifiers where three are asked for -/

def threeReports : List NodeReport :=
  [⟨⟨js "a", .PASS, js "h"⟩, js "1", [], [], js "t"⟩, ⟨⟨js "b", .PASS, js "h"⟩, js "2", [], [], js "t"⟩,
    ⟨⟨js "c", .FAIL, js "h"⟩, js "3", [], [], js "t"⟩]

def threeVerifiers : PublicStore := ⟨threeReports, threeReports⟩

theorem run_threeVerifiers :
    (publicSystem (.finite 1000)).run ⟨[], []⟩ threeReports = some threeVerifiers := rfl

theorem reachable_threeVerifiers : (publicSystem (.finite 1000)).Reachable threeVerifiers :=
  System.Reachable.run (.init rfl) run_threeVerifiers

theorem not_three_passers_threeVerifiers :
    (publicSystem (.finite 1000)).Reachable threeVerifiers ∧
    (consensus (some (.finite 3)) (js "t") threeVerifiers.reports).verdict = .PASS ∧
    ∀ hash, ¬ 3 ≤ (threeVerifiers.passers hash).length := by
  refine ⟨reachable_threeVerifiers, by decide +kernel, fun hash hthree => ?_⟩
  have hle : (threeVerifiers.passers hash).length ≤ 2 := by
    simp only [PublicStore.passers, threeVerifiers, threeReports, latest]
    by_cases hhash : js "h" = hash <;> simp [hhash]
  omega

theorem public_consensus_threeVerifiers :
    ∃ hash, (∀ r ∈ threeVerifiers.reports, r.bundleHash = hash) ∧
      2 ≤ (threeVerifiers.passers hash).length := by
  obtain ⟨-, hpass⟩ := @public_consensus (.finite 1000) (by decide +kernel) _ reachable_threeVerifiers
  obtain ⟨hash, hhash, -, -, -, -, htwo⟩ := hpass (some (.finite 3)) (js "t") (by decide +kernel)
  exact ⟨hash, hhash, htwo⟩

end Attestia.Node
