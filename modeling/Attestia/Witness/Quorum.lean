import Attestia.Witness.GovernanceHistory

/-!
# Quorums that the signers can reach

An operation keeps the quorum within the weight of the signers by a check of its own, but a quorum
that is set before the first signer is only compared with the weights of the signers there are,
and the weight that is left behind a removal is rounded.
-/

namespace Attestia.Witness

open Lib Effect

/-- An integer of the language. -/
def IsInteger (x : JsNumber) : Prop := ∃ n : ℤ, x = .finite n ∧ JsNumber.Representable n

/-- The weights and quorums of a call are integers. -/
def GovernanceCall.Integral : GovernanceCall → Prop
  | addSigner _ _ weight _ _ => IsInteger (weight.getD (.finite 1))
  | changeQuorum newQuorum _ => IsInteger newQuorum
  | _ => True

/-- The weight of a signer as a natural number. -/
def SignerEntry.points (s : SignerEntry) : ℕ :=
  match s.weight with
  | .finite q => q.num.toNat
  | _ => 0

namespace GovernanceStore

/-- The first signer has the weight of the quorum, and signers are removed while the sum of the
weights is exact. -/
def Achieves (g : GovernanceStore) : GovernanceCall → Prop
  | .addSigner _ _ weight _ _ =>
    g.signers.entries = [] → g.quorum.le (weight.getD (.finite 1)) = true
  | .removeSigner _ _ => (g.signers.values.map SignerEntry.points).sum ≤ 2 ^ 53
  | _ => True

/-- What the operations keep. -/
structure Governable (g : GovernanceStore) : Prop where
  quorum : ∃ q : ℕ, g.quorum = .finite q ∧ (1 : ℚ) ≤ q
  weights : ∀ s ∈ g.signers.values,
    s.weight = .finite s.points ∧ 1 ≤ s.points ∧ JsNumber.Representable s.points
  achievable : g.signers.entries ≠ [] → g.quorum.le g.totalWeight = true

variable {platform : Platform} {g : GovernanceStore}

theorem isAmount_zero : (JsNumber.finite 0).IsAmount :=
  .inr ⟨0, rfl, le_rfl, by exact_mod_cast JsNumber.representable_natCast (Nat.zero_le _)⟩

theorem isAmount_sum {signers : List SignerEntry}
    (h : ∀ s ∈ signers, s.weight = .finite s.points) :
    (JsNumber.sum (signers.map SignerEntry.weight)).IsAmount := by
  induction signers using List.reverseRecOn with
  | nil => exact isAmount_zero
  | append_singleton signers s ih =>
    rw [List.map_append, List.map_singleton, JsNumber.sum_append_singleton,
      h s (List.mem_append_right _ (List.mem_singleton_self s))]
    exact ((ih fun a ha => h a (List.mem_append_left _ ha)).add (Nat.cast_nonneg _)).1

theorem Governable.isAmount (h : g.Governable) : g.totalWeight.IsAmount :=
  isAmount_sum fun s hs => (h.weights s hs).1

theorem governable_new (createdAt : JsString) : (new createdAt).Governable where
  quorum := ⟨1, congrArg JsNumber.finite Nat.cast_one.symm, Nat.one_le_cast.mpr le_rfl⟩
  weights _ hs := absurd hs List.not_mem_nil
  achievable h := absurd rfl h

/-- A weight that passes the checks. -/
theorem points_of_isInteger {s : SignerEntry} (hint : IsInteger s.weight)
    (hlow : s.weight.lt (.finite 1) = false) :
    s.weight = .finite s.points ∧ 1 ≤ s.points ∧ JsNumber.Representable s.points := by
  obtain ⟨n, hn, hrep⟩ := hint
  rw [hn, JsNumber.lt, decide_eq_false_iff_not, not_lt] at hlow
  have hpos : 1 ≤ n := by exact_mod_cast hlow
  have hpoints : (s.points : ℤ) = n := by
    rw [SignerEntry.points, hn]
    dsimp only
    rw [Rat.num_intCast, Int.toNat_of_nonneg (by omega)]
  have hcast : ((s.points : ℕ) : ℚ) = (n : ℚ) := by exact_mod_cast congrArg (Int.cast : ℤ → ℚ) hpoints
  rw [hcast]
  exact ⟨hn, by omega, hrep⟩

theorem Governable.addSigner (h : g.Governable) {signer : SignerEntry}
    (hnew : signer.address ∉ g.signers.keys) (hint : IsInteger signer.weight)
    (hlow : signer.weight.lt (.finite 1) = false)
    (hfirst : g.signers.entries = [] → g.quorum.le signer.weight = true) :
    Governable { g with signers := g.signers.set signer.address signer } := by
  obtain ⟨hweight, hpos, hrep⟩ := points_of_isInteger hint hlow
  have hvalues : (g.signers.set signer.address signer).values = g.signers.values ++ [signer] := by
    rw [JsMap.values, JsMap.entries_set_of_not_mem hnew, List.map_append]
    rfl
  refine ⟨h.quorum, ?_, fun _ => ?_⟩
  · intro s hs
    dsimp only at hs
    rw [hvalues] at hs
    rcases List.mem_append.mp hs with hs | hs
    · exact h.weights s hs
    · rw [List.mem_singleton.mp hs]
      exact ⟨hweight, hpos, hrep⟩
  · change g.quorum.le (JsNumber.sum ((g.signers.set signer.address signer).values.map _)) = true
    rw [hvalues, List.map_append, List.map_singleton, JsNumber.sum_append_singleton]
    by_cases hempty : g.signers.entries = []
    · -- the first weight is the sum
      have hsum : (JsNumber.sum (g.signers.values.map SignerEntry.weight)).add signer.weight =
          signer.weight := by
        rw [JsMap.values, hempty, hweight]
        change JsNumber.ofRational (0 + _) = _
        rw [zero_add, hrep.ofRational]
      rw [hsum]
      exact hfirst hempty
    · have hle := (h.isAmount.add (Nat.cast_nonneg signer.points)).2
      rw [← hweight] at hle
      exact JsNumber.le_of_le_of_le (h.achievable hempty) hle

theorem Governable.removeSigner (h : g.Governable) {address : JsString} {signer : SignerEntry}
    (hget : g.signers.get? address = some signer)
    (hbound : (g.signers.values.map SignerEntry.points).sum ≤ 2 ^ 53)
    (hquorum : (g.totalWeight.sub signer.weight).lt g.quorum = false) :
    Governable { g with signers := g.signers.erase address } := by
  have hsplit := JsMap.sum_values_erase SignerEntry.points hget
  have hvalues : ∀ s ∈ (g.signers.erase address).values, s ∈ g.signers.values := by
    intro s hs
    exact (List.filter_sublist.map Prod.snd).subset hs
  have hexact : ∀ {m : JsMap JsString SignerEntry}, (∀ s ∈ m.values, s ∈ g.signers.values) →
      (m.values.map SignerEntry.points).sum ≤ 2 ^ 53 →
        JsNumber.sum (m.values.map SignerEntry.weight) =
          .finite ((m.values.map SignerEntry.points).sum : ℚ) := by
    intro m hsub hle
    have hmap : m.values.map SignerEntry.weight =
        (m.values.map SignerEntry.points).map fun n : ℕ => JsNumber.finite n := by
      rw [List.map_map]
      apply List.map_congr_left
      intro s hs
      exact (h.weights s (hsub s hs)).1
    rw [hmap, JsNumber.sum_natCast hle]
  have hmem : signer ∈ g.signers.values := JsMap.mem_values.mpr ⟨address, hget⟩
  have htotal : g.totalWeight = .finite ((g.signers.values.map SignerEntry.points).sum : ℚ) :=
    hexact (fun _ hs => hs) hbound
  have hrestbound : ((g.signers.erase address).values.map SignerEntry.points).sum ≤ 2 ^ 53 := by
    omega
  have hrest : JsNumber.sum ((g.signers.erase address).values.map SignerEntry.weight) =
      .finite (((g.signers.erase address).values.map SignerEntry.points).sum : ℚ) :=
    hexact hvalues hrestbound
  refine ⟨h.quorum, fun s hs => h.weights s (hvalues s hs), fun _ => ?_⟩
  change g.quorum.le (JsNumber.sum ((g.signers.erase address).values.map SignerEntry.weight)) = true
  obtain ⟨q, hq, -⟩ := h.quorum
  -- the difference is not rounded
  have hsub : g.totalWeight.sub signer.weight =
      .finite (((g.signers.erase address).values.map SignerEntry.points).sum : ℚ) := by
    rw [htotal, (h.weights signer hmem).1, JsNumber.sub, JsNumber.neg, JsNumber.add, ← hsplit,
      Nat.cast_add, add_neg_cancel_comm]
    exact (JsNumber.representable_natCast hrestbound).ofRational
  rw [hsub, hq, JsNumber.lt, decide_eq_false_iff_not, not_lt] at hquorum
  rw [hrest, hq]
  simp only [JsNumber.le, JsNumber.lt, JsNumber.same, Bool.or_eq_true, decide_eq_true_eq]
  exact hquorum.lt_or_eq

theorem le_of_lt_eq_false {x : JsNumber} {q : ℚ} (hx : x.IsAmount) (h : x.lt (.finite q) = false) :
    (JsNumber.finite q).le x = true := by
  rcases hx with rfl | ⟨p, rfl, -, -⟩
  · rfl
  · rw [JsNumber.lt, decide_eq_false_iff_not, not_lt] at h
    simp only [JsNumber.le, JsNumber.lt, JsNumber.same, Bool.or_eq_true, decide_eq_true_eq]
    exact h.lt_or_eq

theorem Governable.changeQuorum (h : g.Governable) {newQuorum : JsNumber} (hint : IsInteger newQuorum)
    (hlow : newQuorum.lt (.finite 1) = false)
    (hhigh : JsNumber.lt (.finite 0) g.totalWeight = true → g.totalWeight.lt newQuorum = false) :
    Governable { g with quorum := newQuorum } := by
  obtain ⟨z, rfl, -⟩ := hint
  rw [JsNumber.lt, decide_eq_false_iff_not, not_lt] at hlow
  obtain ⟨n, rfl⟩ := Int.eq_ofNat_of_zero_le (a := z) (by exact_mod_cast zero_le_one.trans hlow)
  rw [Int.cast_natCast] at hlow
  refine ⟨⟨n, rfl, hlow⟩, h.weights, fun hne => ?_⟩
  change (JsNumber.finite (n : ℤ)).le g.totalWeight = true
  apply le_of_lt_eq_false h.isAmount
  apply hhigh
  -- the quorum before has been reached, so that the weights are not zero
  obtain ⟨q, hq, hq1⟩ := h.quorum
  have hreached := h.achievable hne
  rw [hq] at hreached
  rcases h.isAmount with htotal | ⟨t, htotal, -, -⟩
  · rw [htotal]
    rfl
  · rw [htotal] at hreached ⊢
    simp only [JsNumber.le, JsNumber.lt, JsNumber.same, Bool.or_eq_true, decide_eq_true_eq] at *
    linarith [le_iff_lt_or_eq.mpr hreached]

theorem Governable.call (h : g.Governable) {c : GovernanceCall} (hint : c.Integral)
    (hachieves : g.Achieves c) : (g.call platform c).Governable := by
  rcases @call_cases platform g c with hcall | ⟨change, timestamp, hallows, hcall⟩
  · rw [hcall]
    exact h
  · rw [hcall]
    have happly : (g.apply change timestamp).Governable := by
      cases hallows with
      | addSigner address label weight publicKey _ hnew hlow =>
        exact @Governable.addSigner _ h ⟨address, label, weight.getD (.finite 1), timestamp, publicKey⟩
          hnew hint hlow hachieves
      | removeSigner _ _ signer hget hquorum => exact h.removeSigner hget hachieves hquorum
      | changeQuorum newQuorum _ hlow hhigh => exact h.changeQuorum hint hlow hhigh
      | setSlaPolicy => exact ⟨h.quorum, h.weights, h.achievable⟩
    exact ⟨happly.quorum, happly.weights, happly.achievable⟩

end GovernanceStore

open GovernanceStore

variable (platform : Platform)

def governanceSystem : System GovernanceStore GovernanceCall where
  init g := ∃ createdAt, g = .new createdAt
  next g c := some (g.call platform c)

/-- The quorum is within the weight of the signers, and there is a policy, which has authority. -/
structure Achievable (g : GovernanceStore) : Prop where
  low : (JsNumber.finite 1).le g.quorum = true
  high : g.quorum.le g.totalWeight = true
  authority : ∃ policy, g.getCurrentPolicy platform = .ok policy ∧ ∀ stateId orderIndex,
    (validateAuthority platform policy ⟨stateId, orderIndex, policy.id, policy.version⟩).valid = true

variable {platform}

theorem inJson_natCast (n : ℕ) : (JsNumber.finite n).InJson :=
  ⟨.ofNat n, rfl⟩

/-- Canonical JSON has a text for the shape of the policy. -/
theorem GovernanceStore.Governable.inJson {g : GovernanceStore} (h : g.Governable) :
    (canonicalPolicyShape platform g.version g.signers.values g.quorum).InJson := by
  obtain ⟨q, hq, -⟩ := h.quorum
  constructor
  · rw [canonicalPolicyShape, hq]
    exact inJson_natCast q
  · intro shape hshape
    obtain ⟨s, hs, rfl⟩ := List.mem_map.mp hshape
    have hmem : s ∈ g.signers.values := (List.perm_insertionSort _ _).mem_iff.mp hs
    rw [show (SignerShape.mk s.address s.weight s.publicKey).weight = s.weight from rfl,
      (h.weights s hmem).1]
    exact inJson_natCast s.points

theorem GovernanceStore.Governable.achievable' {g : GovernanceStore} (h : g.Governable)
    (hsigners : 1 ≤ g.signerCount) : Achievable platform g := by
  have hne : g.signers.entries ≠ [] := List.ne_nil_of_length_pos hsigners
  obtain ⟨q, hq, hq1⟩ := h.quorum
  refine ⟨?_, h.achievable hne, ?_⟩
  · rw [hq]
    simp only [JsNumber.le, JsNumber.lt, JsNumber.same, Bool.or_eq_true, decide_eq_true_eq]
    exact hq1.lt_or_eq
  · obtain ⟨json, hjson⟩ := platform.canonicalize_eq_ok _ h.inJson
    refine ⟨_, bind_eq_ok.mpr ⟨json, hjson, rfl⟩, fun stateId orderIndex => ?_⟩
    have hvalues : g.signers.values ≠ [] := by
      rw [JsMap.values]
      exact fun hnil => hne (List.map_eq_nil_iff.mp hnil)
    have hweight : (JsNumber.sum (g.signers.values.map SignerEntry.weight)).lt g.quorum = false :=
      JsNumber.not_lt_of_le (h.achievable hne)
    simp [validateAuthority, authorityRejections, rejectIf, hvalues, GovernancePolicy.totalWeight,
      hweight]

theorem governable_of_reachableVia {g : GovernanceStore}
    (h : (governanceSystem platform).ReachableVia (fun g c => c.Integral ∧ g.Achieves c) g) :
    g.Governable := by
  refine System.ReachableVia.invariant ?_ ?_ h
  · rintro g ⟨createdAt, rfl⟩
    exact governable_new createdAt
  · intro g c g' hg hok hnext
    cases hnext
    exact hg.call hok.1 hok.2

/-- Runs whose first signer has the weight of the quorum, and that remove signers while sums are
exact, keep the quorum within reach. -/
theorem quorum_achievable {g : GovernanceStore}
    (h : (governanceSystem platform).ReachableVia (fun g c => c.Integral ∧ g.Achieves c) g)
    (hsigners : 1 ≤ g.signerCount) : Achievable platform g :=
  (governable_of_reachableVia h).achievable' hsigners

/-! ### A quorum that is set before the first signer -/

theorem isInteger_natCast {n : ℕ} (h : n ≤ 2 ^ 53) : IsInteger (.finite n) :=
  ⟨n, by simp, by simpa using JsNumber.representable_natCast h⟩

def signerAt (address : String) : GovernanceCall := .addSigner (js address) (js "Signer") none none (js "t")

theorem integral_signerAt (address : String) : (signerAt address).Integral := by
  have hone := isInteger_natCast (n := 1) (by norm_num)
  rwa [Nat.cast_one] at hone

theorem integral_quorumOfTwo (timestamp : JsString) :
    (GovernanceCall.changeQuorum (.finite 2) timestamp).Integral := by
  have htwo := isInteger_natCast (n := 2) (by norm_num)
  rwa [Nat.cast_ofNat] at htwo

def earlyQuorum : GovernanceStore :=
  (GovernanceStore.new (js "t")).after jcsPlatform [.changeQuorum (.finite 2) (js "t"), signerAt "a"]

theorem not_achievable_earlyQuorum :
    (governanceSystem jcsPlatform).ReachableVia (fun _ c => c.Integral) earlyQuorum ∧
      1 ≤ earlyQuorum.signerCount ∧ ¬ Achievable jcsPlatform earlyQuorum := by
  refine ⟨?_, by decide +kernel, ?_⟩
  · refine @System.ReachableVia.run _ _ _ _ _ _ [.changeQuorum (.finite 2) (js "t"), signerAt "a"]
      (.init ⟨js "t", rfl⟩) ?_ rfl
    intro c hc g
    simp only [List.mem_cons, List.not_mem_nil, or_false] at hc
    rcases hc with rfl | rfl
    · exact integral_quorumOfTwo _
    · exact integral_signerAt "a"
  · intro h
    exact absurd h.high (by decide +kernel)

def twoSigners : GovernanceStore := (GovernanceStore.new (js "t")).after jcsPlatform
  [signerAt "a", signerAt "b", .changeQuorum (.finite 2) (js "t")]

theorem quorum_achievable_twoSigners : twoSigners.quorum = .finite 2 ∧
    Achievable jcsPlatform twoSigners := by
  refine ⟨by decide +kernel, quorum_achievable ?_ (by decide +kernel)⟩
  have hfirst : (governanceSystem jcsPlatform).ReachableVia (fun g c => c.Integral ∧ g.Achieves c)
      ((GovernanceStore.new (js "t")).call jcsPlatform (signerAt "a")) :=
    .step (.init ⟨js "t", rfl⟩) ⟨integral_signerAt "a", fun _ => by decide +kernel⟩ rfl
  have hsecond : (governanceSystem jcsPlatform).ReachableVia (fun g c => c.Integral ∧ g.Achieves c)
      (((GovernanceStore.new (js "t")).call jcsPlatform (signerAt "a")).call jcsPlatform
        (signerAt "b")) :=
    .step hfirst ⟨integral_signerAt "b", fun _ => by decide +kernel⟩ rfl
  exact .step hsecond ⟨integral_quorumOfTwo (js "t"), trivial⟩ rfl

end Attestia.Witness
