import Attestia.Witness.HistoricalQuorum

/-!
# Checks of a quorum

`checkQuorum` adds up the weights of a list of addresses. An address that occurs twice is added
twice, while the aggregation of signatures rejects it; the two agree on distinct signers.
-/

namespace Attestia.Witness

open Lib

namespace GovernanceStore

variable (g : GovernanceStore)

def weightOf (address : JsString) : JsNumber :=
  ((g.signers.get? address).map SignerEntry.weight).getD (.finite 0)

def checkQuorum (signerAddresses : List JsString) : QuorumResult :=
  let validSigners := signerAddresses.filter fun addr => g.signers.has addr
  let totalWeight := JsNumber.sum (validSigners.map g.weightOf)
  let allAddresses := g.signers.keys
  { met := g.quorum.le totalWeight
    totalWeight
    requiredWeight := g.quorum
    signerAddresses := validSigners
    missingAddresses := allAddresses.filter fun addr => addr ∉ signerAddresses }

/-- The weight of the signers that occur in a list. -/
def distinctWeight (signerAddresses : List JsString) : ℕ :=
  ((g.signers.values.filter fun s => s.address ∈ signerAddresses).map SignerEntry.points).sum

/-- The weight of the signers as often as they occur in a list. -/
def repeatedWeight (signerAddresses : List JsString) : ℕ :=
  (g.signers.values.map fun s => s.points * signerAddresses.count s.address).sum

/-- The quorum is at most a weight. -/
def Reaches (weight : ℕ) : Prop := g.quorum.le (.finite weight) = true

end GovernanceStore

open GovernanceStore

/-- A check counts every signer once: it depends on the signers in the list alone, and an
aggregation that accepts a signature of each of them agrees. -/
structure CountsOnce (platform : Platform) (g : GovernanceStore) (signerAddresses : List JsString) :
    Prop where
  met : (g.checkQuorum signerAddresses).met = true ↔ g.Reaches (g.distinctWeight signerAddresses)
  permuted : ∀ l, l.Perm signerAddresses →
    (g.checkQuorum l).met = (g.checkQuorum signerAddresses).met
  distinct : ∀ l : List JsString, l.Nodup → (∀ a, a ∈ l ↔ a ∈ signerAddresses) →
    (g.checkQuorum l).met = (g.checkQuorum signerAddresses).met
  aggregates : signerAddresses.Nodup → (∀ a ∈ signerAddresses, a ∈ g.signers.keys) →
    ∀ policy, g.getCurrentPolicy platform = .ok policy → ∀ signatures verify payloadHash now,
      signatures.map SignerSignature.address = signerAddresses →
      (∀ sig ∈ signatures, accepts verify payloadHash policy sig = true) →
      ((∃ r, aggregateSignatures platform signatures policy payloadHash (some verify) now = .ok r) ↔
        (g.checkQuorum signerAddresses).met = true)

/-- The calls that the API admits: weights and quorums are integers, and quorums are safe. -/
def GovernanceCall.Admitted (c : GovernanceCall) : Prop :=
  c.Integral ∧ match c with
    | changeQuorum newQuorum _ => newQuorum.le (.finite (2 ^ 53)) = true
    | _ => True

/-! ## Sums of weights -/

theorem isAmount_sum_natCast (l : List ℕ) :
    (JsNumber.sum (l.map fun n : ℕ => .finite n)).IsAmount := by
  induction l using List.reverseRecOn with
  | nil => exact isAmount_zero
  | append_singleton l n ih =>
    rw [List.map_append, List.map_singleton, JsNumber.sum_append_singleton]
    exact (ih.add (Nat.cast_nonneg n)).1

/-- A sum that passes the bound is rounded, but not below the bound. -/
theorem two_pow_le_sum {l : List ℕ} (h : 2 ^ 53 ≤ l.sum) :
    (JsNumber.finite (2 ^ 53)).le (JsNumber.sum (l.map fun n : ℕ => .finite n)) = true := by
  induction l using List.reverseRecOn with
  | nil => cases h
  | append_singleton l n ih =>
    rw [List.map_append, List.map_singleton, JsNumber.sum_append_singleton]
    by_cases hl : 2 ^ 53 ≤ l.sum
    · have hle := ((isAmount_sum_natCast l).add (Nat.cast_nonneg n)).2
      exact JsNumber.le_of_le_of_le (ih hl) hle
    · -- the sum passes the bound here
      rw [List.sum_append, List.sum_singleton] at h
      have hbound : (2 ^ 53 : ℚ) ≤ l.sum + n := by exact_mod_cast h
      rw [JsNumber.sum_natCast (by omega)]
      apply JsNumber.le_ofRational _ (by norm_num) hbound
      exact_mod_cast JsNumber.representable_natCast (n := 2 ^ 53) le_rfl

/-- A safe number is compared with a sum of natural numbers as if that were exact. -/
theorem le_sum_natCast {q : JsNumber} (hq : q.le (.finite (2 ^ 53)) = true) (l : List ℕ) :
    q.le (JsNumber.sum (l.map fun n : ℕ => .finite n)) = true ↔
      q.le (.finite (l.sum : ℕ)) = true := by
  by_cases hl : l.sum ≤ 2 ^ 53
  · rw [JsNumber.sum_natCast hl]
  · have hsum := two_pow_le_sum (not_le.mp hl).le
    refine iff_of_true (JsNumber.le_of_le_of_le hq hsum) (JsNumber.le_of_le_of_le hq ?_)
    rw [JsNumber.le, Bool.or_eq_true]
    left
    rw [JsNumber.lt, decide_eq_true_eq]
    exact_mod_cast not_le.mp hl

/-! ## Reachable stores -/

/-- The signers are under their addresses with natural weights, and the quorum is safe. -/
structure Counted (g : GovernanceStore) : Prop where
  address : ∀ k s, g.signers.get? k = some s → s.address = k
  weight : ∀ k s, g.signers.get? k = some s → s.weight = .finite s.points
  quorum : g.quorum.le (.finite (2 ^ 53)) = true

variable {platform : Platform} {g : GovernanceStore}

theorem get?_of_erase {m : JsMap JsString SignerEntry} {k l : JsString} {v : SignerEntry}
    (h : (m.erase k).get? l = some v) : m.get? l = some v := by
  rw [JsMap.get?_erase] at h
  split at h
  · cases h
  · exact h

theorem Counted.call (h : Counted g) {c : GovernanceCall} (hc : c.Admitted) :
    Counted (g.call platform c) := by
  rcases @call_cases platform g c with hcall | ⟨change, timestamp, hallows, hcall⟩
  · rw [hcall]
    exact h
  · rw [hcall]
    have happly : Counted (g.apply change timestamp) := by
      cases hallows with
      | addSigner address label weight publicKey _ hnew hlow =>
        have hpoints := points_of_isInteger
          (s := ⟨address, label, weight.getD (.finite 1), timestamp, publicKey⟩) hc.1 hlow
        exact ⟨JsMap.forall_set h.address rfl, JsMap.forall_set h.weight hpoints.1, h.quorum⟩
      | removeSigner address _ signer hget hquorum =>
        refine ⟨fun k s hs => ?_, fun k s hs => ?_, h.quorum⟩
        · exact h.address k s (get?_of_erase hs)
        · exact h.weight k s (get?_of_erase hs)
      | changeQuorum newQuorum _ hlow hhigh => exact ⟨h.address, h.weight, hc.2⟩
      | setSlaPolicy => exact ⟨h.address, h.weight, h.quorum⟩
    exact ⟨happly.address, happly.weight, happly.quorum⟩

theorem counted_of_reachableVia
    (h : (governanceSystem platform).ReachableVia (fun _ c => c.Admitted) g) : Counted g := by
  refine System.ReachableVia.invariant ?_ ?_ h
  · rintro g ⟨createdAt, rfl⟩
    refine ⟨fun k s hs => ?_, fun k s hs => ?_, ?_⟩
    · cases hs
    · cases hs
    · show (JsNumber.finite 1).le (.finite (2 ^ 53)) = true
      decide +kernel
  · intro g c g' hg hc hnext
    cases hnext
    exact hg.call hc

/-! ## Weights of a list -/

/-- The points of an address. -/
def pointsOf (g : GovernanceStore) (address : JsString) : ℕ :=
  ((g.signers.get? address).map SignerEntry.points).getD 0

theorem Counted.weightOf (h : Counted g) (address : JsString) :
    g.weightOf address = .finite (pointsOf g address : ℕ) := by
  rw [GovernanceStore.weightOf, pointsOf]
  cases hget : g.signers.get? address with
  | none => exact congrArg JsNumber.finite Nat.cast_zero.symm
  | some s => exact h.weight address s hget

/-- One signer has an address. -/
theorem Counted.sum_values_address (h : Counted g) (address : JsString) :
    (g.signers.values.map fun s => if s.address = address then s.points else 0).sum =
      pointsOf g address := by
  rw [pointsOf]
  cases hget : g.signers.get? address with
  | none =>
    apply List.sum_eq_zero
    intro n hn
    obtain ⟨s, hs, rfl⟩ := List.mem_map.mp hn
    obtain ⟨k, hk⟩ := JsMap.mem_values.mp hs
    rw [if_neg]
    rintro rfl
    cases (h.address k s hk ▸ hget).symm.trans hk
  | some signer =>
    have hsplit := JsMap.sum_values_erase
      (fun s : SignerEntry => if s.address = address then s.points else 0) hget
    have hothers : ((g.signers.erase address).values.map
        fun s => if s.address = address then s.points else 0).sum = 0 := by
      apply List.sum_eq_zero
      intro n hn
      obtain ⟨s, hs, rfl⟩ := List.mem_map.mp hn
      obtain ⟨k, hk⟩ := JsMap.mem_values.mp hs
      rw [JsMap.get?_erase] at hk
      split at hk
      · cases hk
      · rename_i hne
        rw [if_neg (h.address k s hk ▸ hne)]
    rw [← hsplit, hothers, add_zero, if_pos (h.address address signer hget)]
    rfl

/-- The weights of a list are added up signer by signer. -/
theorem Counted.sum_points (h : Counted g) (l : List JsString) :
    (l.map (pointsOf g)).sum = g.repeatedWeight l := by
  induction l with
  | nil => simp [repeatedWeight]
  | cons a l ih =>
    rw [List.map_cons, List.sum_cons, ih, ← h.sum_values_address, repeatedWeight, repeatedWeight,
      ← List.sum_map_add]
    congr 1
    apply List.map_congr_left
    intro s _
    rw [List.count_cons]
    by_cases ha : s.address = a
    · simp [ha, Nat.mul_add, Nat.add_comm]
    · simp [ha, Ne.symm ha]

theorem sum_points_filter (g : GovernanceStore) (l : List JsString) :
    ((l.filter fun addr => g.signers.has addr).map (pointsOf g)).sum =
      (l.map (pointsOf g)).sum := by
  induction l with
  | nil => rfl
  | cons a l ih =>
    rw [List.filter_cons, List.map_cons, List.sum_cons, ← ih]
    split
    · rfl
    · rename_i hhas
      rw [JsMap.has_eq_true, ← JsMap.get?_eq_none] at hhas
      have hzero : pointsOf g a = 0 := by
        rw [pointsOf, hhas]
        rfl
      rw [hzero, zero_add]

theorem Counted.met_iff (h : Counted g) (l : List JsString) :
    (g.checkQuorum l).met = true ↔ g.Reaches (g.repeatedWeight l) := by
  have hweights : (l.filter fun addr => g.signers.has addr).map g.weightOf =
      ((l.filter fun addr => g.signers.has addr).map (pointsOf g)).map fun n : ℕ => .finite n := by
    rw [List.map_map]
    exact List.map_congr_left fun a _ => h.weightOf a
  show g.quorum.le
    (JsNumber.sum ((l.filter fun addr => g.signers.has addr).map g.weightOf)) = true ↔ _
  rw [hweights, le_sum_natCast h.quorum, sum_points_filter, h.sum_points, Reaches]

theorem sum_filter_map {α : Type*} (p : α → Bool) (f : α → ℕ) (l : List α) :
    ((l.filter p).map f).sum = (l.map fun a => if p a then f a else 0).sum := by
  induction l with
  | nil => rfl
  | cons a l ih =>
    rw [List.filter_cons, List.map_cons, List.sum_cons, ← ih]
    split
    · rfl
    · exact (zero_add _).symm

theorem distinctWeight_le (g : GovernanceStore) (l : List JsString) :
    g.distinctWeight l ≤ g.repeatedWeight l := by
  rw [distinctWeight, sum_filter_map, repeatedWeight]
  apply List.sum_le_sum
  intro s _
  split
  · rename_i hmem
    exact Nat.le_mul_of_pos_right _ (List.count_pos_iff.mpr (of_decide_eq_true hmem))
  · exact Nat.zero_le _

theorem repeatedWeight_of_nodup (g : GovernanceStore) {l : List JsString} (h : l.Nodup) :
    g.repeatedWeight l = g.distinctWeight l := by
  rw [distinctWeight, sum_filter_map, repeatedWeight]
  congr 1
  apply List.map_congr_left
  intro s _
  by_cases hmem : s.address ∈ l
  · simp [hmem, List.count_eq_one_of_mem h hmem]
  · simp [hmem, List.count_eq_zero_of_not_mem hmem]

theorem GovernanceStore.Reaches.mono {m n : ℕ} (h : g.Reaches m) (hmn : m ≤ n) : g.Reaches n := by
  apply JsNumber.le_of_le_of_le h
  rw [JsNumber.le, Bool.or_eq_true, JsNumber.lt, JsNumber.same, decide_eq_true_eq,
    decide_eq_true_eq]
  exact (Nat.cast_le.mpr hmn).lt_or_eq

/-! ## Aggregations -/

theorem Counted.signerByAddress (h : Counted g) {policy : GovernancePolicy}
    (hpolicy : g.getCurrentPolicy platform = .ok policy) :
    signerByAddress policy = g.signers ∧ policy.quorum = g.quorum := by
  obtain ⟨json, -, hpolicy⟩ := bind_eq_ok.mp hpolicy
  rw [← Except.ok.inj hpolicy]
  exact ⟨JsMap.setAll_values h.address, rfl⟩

/-- The aggregation of accepted signatures adds up what the check adds up. -/
theorem Counted.aggregates (h : Counted g) {l : List JsString} (hnodup : l.Nodup)
    (hsigners : ∀ a ∈ l, a ∈ g.signers.keys) {policy : GovernancePolicy}
    (hpolicy : g.getCurrentPolicy platform = .ok policy) {signatures : List SignerSignature}
    {verify : SignatureVerifier} {payloadHash now : JsString}
    (haddresses : signatures.map SignerSignature.address = l)
    (haccepts : ∀ sig ∈ signatures, accepts verify payloadHash policy sig = true) :
    (∃ r, aggregateSignatures platform signatures policy payloadHash (some verify) now = .ok r) ↔
      (g.checkQuorum l).met = true := by
  obtain ⟨hmap, hquorum⟩ := h.signerByAddress hpolicy
  have hretained : retained verify payloadHash policy signatures = signatures :=
    List.filter_eq_self.mpr haccepts
  have hvalid : (l.filter fun addr => g.signers.has addr) = l :=
    List.filter_eq_self.mpr fun a ha => JsMap.has_eq_true.mpr (hsigners a ha)
  have hweight : ∀ sig, signatureWeight policy sig = g.weightOf sig.address := by
    intro sig
    rw [signatureWeight, hmap, GovernanceStore.weightOf]
    cases g.signers.get? sig.address <;> rfl
  have hsum : verifiedWeight policy signatures = JsNumber.sum (l.map g.weightOf) := by
    rw [verifiedWeight, ← haddresses, List.map_map]
    exact congrArg JsNumber.sum (List.map_congr_left fun sig _ => hweight sig)
  have hmet : (g.checkQuorum l).met = policy.quorum.le (verifiedWeight policy signatures) := by
    rw [hsum, hquorum]
    show g.quorum.le (JsNumber.sum ((l.filter fun addr => g.signers.has addr).map g.weightOf)) = _
    rw [hvalid]
  rw [hmet]
  constructor
  · rintro ⟨r, hr⟩
    have hreached := (aggregateSignatures_eq_ok.mp hr).1.quorum
    rwa [hretained] at hreached
  · intro hreached
    refine ⟨_, aggregateSignatures_eq_ok.mpr ⟨⟨haddresses ▸ hnodup, ?_, ?_⟩, rfl⟩⟩
    · exact fun sig hsig => .of_accepts (haccepts sig hsig)
    · rw [hretained]
      exact hreached

/-- A check counts every signer once exactly where the distinct signers reach the quorum, or where
they do not reach it with their repetitions either. -/
theorem countsOnce_iff_reaches
    (h : (governanceSystem platform).ReachableVia (fun _ c => c.Admitted) g) (l : List JsString) :
    CountsOnce platform g l ↔
      g.Reaches (g.distinctWeight l) ∨ ¬ g.Reaches (g.repeatedWeight l) := by
  have hg := counted_of_reachableVia h
  constructor
  · intro honce
    rw [← hg.met_iff, ← honce.met]
    exact em _
  · intro hreaches
    have hmet : (g.checkQuorum l).met = true ↔ g.Reaches (g.distinctWeight l) := by
      rw [hg.met_iff]
      exact ⟨fun hrepeated => hreaches.resolve_right (not_not.mpr hrepeated),
        fun hdistinct => hdistinct.mono (distinctWeight_le g l)⟩
    refine ⟨hmet, ?_, ?_, fun hnodup hsigners policy hpolicy signatures verify payloadHash now
      haddresses haccepts => hg.aggregates hnodup hsigners hpolicy haddresses haccepts⟩
    · intro l' hperm
      rw [Bool.eq_iff_iff, hg.met_iff, hg.met_iff, repeatedWeight, repeatedWeight]
      simp only [hperm.count_eq]
    · intro l' hnodup hsame
      have hweight : g.distinctWeight l' = g.distinctWeight l := by
        simp only [distinctWeight, hsame]
      rw [Bool.eq_iff_iff, hmet, hg.met_iff, repeatedWeight_of_nodup g hnodup, hweight]

/-! ### A signer that is counted twice -/

theorem reachableVia_twoSigners :
    (governanceSystem jcsPlatform).ReachableVia (fun _ c => c.Admitted) twoSigners := by
  refine @System.ReachableVia.run _ _ _ _ _ _
    [signerAt "a", signerAt "b", .changeQuorum (.finite 2) (js "t")] (.init ⟨js "t", rfl⟩) ?_ rfl
  intro c hc g
  simp only [List.mem_cons, List.not_mem_nil, or_false] at hc
  rcases hc with rfl | rfl | rfl
  · exact ⟨integral_signerAt "a", trivial⟩
  · exact ⟨integral_signerAt "b", trivial⟩
  · refine ⟨integral_quorumOfTwo (js "t"), ?_⟩
    show (JsNumber.finite 2).le (.finite (2 ^ 53)) = true
    decide +kernel

theorem not_countsOnce_repeated :
    (governanceSystem jcsPlatform).ReachableVia (fun _ c => c.Admitted) twoSigners ∧
      ¬ CountsOnce jcsPlatform twoSigners [js "a", js "a"] := by
  refine ⟨reachableVia_twoSigners, fun h => ?_⟩
  have hmet : (twoSigners.checkQuorum [js "a", js "a"]).met = true := by decide +kernel
  have hreaches : twoSigners.quorum.le (.finite (twoSigners.distinctWeight [js "a", js "a"] : ℕ)) =
      true := h.met.mp hmet
  revert hreaches
  decide +kernel

theorem countsOnce_iff_reaches_twoSigners :
    CountsOnce jcsPlatform twoSigners [js "a", js "c", js "b"] := by
  apply (countsOnce_iff_reaches reachableVia_twoSigners _).mpr
  left
  show twoSigners.quorum.le
    (.finite (twoSigners.distinctWeight [js "a", js "c", js "b"] : ℕ)) = true
  decide +kernel

end Attestia.Witness
