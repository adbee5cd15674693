import Attestia.Verify.MultiChainReplay
import Mathlib.Data.Int.ConditionallyCompleteOrder
import Mathlib.Data.Rat.Floor
import Mathlib.Order.Interval.Set.OrdConnected

/-!
# The audit of sequence indices

With contiguous sequences required, an audit passes exactly where the indices of each chain leave
no hole. An index that occurs twice leaves none.
-/

namespace Attestia.Verify

open Lib JsonNumber

/-! ## Lists of integers without holes -/

/-- Of a list in ascending order, neighbours differ by one at most exactly where the elements form
an interval. -/
theorem isChain_succ_iff_ordConnected {l : List ℤ} (hsorted : l.Pairwise (· ≤ ·)) :
    l.IsChain (fun a b => b ≤ a + 1) ↔ {n | n ∈ l}.OrdConnected := by
  induction l with
  | nil => exact iff_of_true .nil (Set.ordConnected_def.mpr fun a ha => absurd ha List.not_mem_nil)
  | cons a l ih =>
    obtain ⟨hfirst, hrest⟩ := List.pairwise_cons.mp hsorted
    cases l with
    | nil =>
      refine iff_of_true (.singleton a) (Set.ordConnected_def.mpr fun x hx y hy m hm => ?_)
      rw [Set.mem_ofPred_eq, List.mem_singleton] at hx hy ⊢
      obtain ⟨hxm, hmy⟩ := Set.mem_Icc.mp hm
      omega
    | cons b l =>
      have hab : a ≤ b := hfirst b (.head _)
      rw [List.isChain_cons_cons, ih hrest]
      constructor
      · rintro ⟨hnext, hconnected⟩
        refine Set.ordConnected_def.mpr fun x hx y hy m hm => ?_
        obtain ⟨hxm, hmy⟩ := Set.mem_Icc.mp hm
        by_cases hma : m = a
        · exact hma ▸ .head _
        · have hxa : a ≤ x := by
            rcases List.mem_cons.mp hx with rfl | hx
            · exact le_refl _
            · exact hfirst x hx
          have hym : y ∈ b :: l := by
            rcases List.mem_cons.mp hy with rfl | hy
            · omega
            · exact hy
          have hbm : b ≤ m := by omega
          exact .tail _ (hconnected.out (.head _) hym (Set.mem_Icc.mpr ⟨hbm, hmy⟩))
      · intro hconnected
        constructor
        · by_contra hgap
          have hmem : a + 1 ∈ a :: b :: l :=
            hconnected.out (.head _) (.tail _ (.head _)) (Set.mem_Icc.mpr ⟨by omega, by omega⟩)
          have hle : ∀ c ∈ b :: l, b ≤ c := fun c hc => by
            rcases List.mem_cons.mp hc with rfl | hc
            · exact le_refl _
            · exact (List.pairwise_cons.mp hrest).1 c hc
          rcases List.mem_cons.mp hmem with heq | hmem
          · omega
          · have := hle _ hmem
            omega
        · refine Set.ordConnected_def.mpr fun x hx y hy m hm => ?_
          rcases List.mem_cons.mp (hconnected.out (.tail _ hx) (.tail _ hy) hm) with rfl | hmem
          · have hxm : x = m := le_antisymm (Set.mem_Icc.mp hm).1 (hfirst x hx)
            exact hxm ▸ hx
          · exact hmem

/-! ## The gaps of a chain -/

section audit

variable {events : List ChainEvent} {chainId : JsString}

/-- The indices of a chain. -/
def indicesOf (events : List ChainEvent) (chainId : JsString) : Set ℤ :=
  {n | ∃ e ∈ events, e.chainId = chainId ∧ e.sequenceIndex.val = n}

/-- Every index is an integer. -/
def Indexed (events : List ChainEvent) : Prop :=
  ∀ e ∈ events, ∃ n : ℤ, e.sequenceIndex.val = n

theorem gaps_eq_nil_iff {l : List ChainEvent} : gaps chainId l = [] ↔
    l.IsChain fun previous current =>
      current.sequenceIndex.val - previous.sequenceIndex.val ≤ 1 := by
  induction l with
  | nil => exact iff_of_true rfl .nil
  | cons a l ih =>
    cases l with
    | nil => exact iff_of_true rfl (.singleton a)
    | cons b l =>
      rw [gaps, List.append_eq_nil_iff, ih, List.isChain_cons_cons]
      apply and_congr_left
      intro _
      rw [← not_lt]
      split
      · rename_i hgap
        exact iff_of_false (List.cons_ne_nil _ _) (not_not.mpr hgap)
      · rename_i hgap
        exact iff_of_true rfl hgap

theorem sortBySequence_pairwise (l : List ChainEvent) :
    (sortBySequence l).Pairwise fun a b => a.sequenceIndex.val ≤ b.sequenceIndex.val := by
  have hrelation : (fun a b : ChainEvent => a.sequenceIndex.val - b.sequenceIndex.val ≤ 0) =
      fun a b => a.sequenceIndex.val ≤ b.sequenceIndex.val := by
    funext a b
    rw [sub_nonpos]
  have htotal : Std.Total fun a b : ChainEvent =>
      a.sequenceIndex.val - b.sequenceIndex.val ≤ 0 := by
    rw [hrelation]
    exact ⟨fun a b => le_total _ _⟩
  have htrans : IsTrans ChainEvent fun a b => a.sequenceIndex.val - b.sequenceIndex.val ≤ 0 := by
    rw [hrelation]
    exact ⟨fun a b c => le_trans⟩
  have hsorted := List.pairwise_insertionSort
    (fun a b : ChainEvent => a.sequenceIndex.val - b.sequenceIndex.val ≤ 0) l
  exact hsorted.imp fun h => sub_nonpos.mp h

/-- The sorted events of a chain have no gap exactly where their indices form an interval. -/
theorem gaps_sortBySequence_iff {group : List ChainEvent} (hindexed : Indexed group) :
    gaps chainId (sortBySequence group) = [] ↔
      {n : ℤ | ∃ e ∈ group, e.sequenceIndex.val = n}.OrdConnected := by
  have hperm : (sortBySequence group).Perm group := List.perm_insertionSort _ group
  have hfloor : ∀ e ∈ sortBySequence group, e.sequenceIndex.val = (⌊e.sequenceIndex.val⌋ : ℤ) := by
    intro e he
    obtain ⟨n, hn⟩ := hindexed e (hperm.mem_iff.mp he)
    rw [hn, Int.floor_intCast]
  have hset : {n : ℤ | ∃ e ∈ group, e.sequenceIndex.val = n} =
      {n | n ∈ (sortBySequence group).map fun e => ⌊e.sequenceIndex.val⌋} := by
    ext n
    simp only [Set.mem_ofPred_eq, List.mem_map]
    constructor
    · rintro ⟨e, he, hn⟩
      exact ⟨e, hperm.mem_iff.mpr he, by rw [hn, Int.floor_intCast]⟩
    · rintro ⟨e, he, rfl⟩
      exact ⟨e, hperm.mem_iff.mp he, hfloor e he⟩
  have hsorted : ((sortBySequence group).map fun e => ⌊e.sequenceIndex.val⌋).Pairwise (· ≤ ·) :=
    List.pairwise_map.mpr ((sortBySequence_pairwise group).imp fun h => Int.floor_le_floor h)
  rw [gaps_eq_nil_iff, hset, ← isChain_succ_iff_ordConnected hsorted, List.isChain_map]
  generalize sortBySequence group = sorted at hfloor
  have hstep : ∀ a ∈ sorted, ∀ b ∈ sorted,
      b.sequenceIndex.val - a.sequenceIndex.val ≤ 1 ↔
        ⌊b.sequenceIndex.val⌋ ≤ ⌊a.sequenceIndex.val⌋ + 1 := by
    intro a ha b hb
    conv_lhs => rw [hfloor a ha, hfloor b hb]
    rw [sub_le_iff_le_add']
    exact_mod_cast Iff.rfl
  exact List.IsChain.iff_of_mem_imp fun a b ha hb => hstep a ha b hb

/-- The indices of a chain are those of its group. -/
theorem indicesOf_eq (chainId : JsString) : indicesOf events chainId =
    {n : ℤ | ∃ e ∈ events.filter fun e => e.chainId = chainId, e.sequenceIndex.val = n} := by
  ext n
  simp only [indicesOf, Set.mem_ofPred_eq, List.mem_filter, decide_eq_true_eq, and_assoc]

/-- Nothing else is asked for. -/
def contiguousOnly : OptionsOrExpectedHash := .options ⟨none, none, some true⟩

/-- The audit passes exactly where no chain has a gap. -/
theorem audit_eq_pass {canonicalize : JsonValue → String} {localeCompare : JsString → JsString → ℤ}
    {auditedAt : JsString} :
    (auditMultiChainReplay canonicalize localeCompare events contiguousOnly auditedAt).verdict =
      .PASS ↔ ∀ c ∈ chainsOf events, gaps c.1 c.2 = [] := by
  rw [auditMultiChainReplay]
  dsimp only
  rw [pass_iff, List.append_eq_nil_iff, List.append_eq_nil_iff, ← List.flatMap_eq_nil_iff]
  exact ⟨fun h => h.1.1, fun h => ⟨⟨h, rfl⟩, rfl⟩⟩

/-- An audit that requires contiguous sequences passes exactly where the indices of each chain form
an interval, in which an index may occur more than once. -/
theorem contiguousAudit_iff (canonicalize : JsonValue → String)
    (localeCompare : JsString → JsString → ℤ) (auditedAt : JsString) (events : List ChainEvent)
    (hindexed : Indexed events) :
    (auditMultiChainReplay canonicalize localeCompare events contiguousOnly auditedAt).verdict =
      .PASS ↔ ∀ chainId, (indicesOf events chainId).OrdConnected := by
  have hgroup : ∀ chainId, Indexed (events.filter fun e => e.chainId = chainId) :=
    fun chainId e he => hindexed e (List.mem_of_mem_filter he)
  rw [audit_eq_pass]
  constructor
  · intro h chainId
    have hiff : gaps chainId (sortBySequence (events.filter fun e => e.chainId = chainId)) = [] ↔
        {n : ℤ | ∃ e ∈ events.filter (fun e => e.chainId = chainId),
          e.sequenceIndex.val = n}.OrdConnected := gaps_sortBySequence_iff (hgroup chainId)
    rw [indicesOf_eq, ← hiff]
    by_cases hnil : (events.filter fun e => e.chainId = chainId) = []
    · rw [hnil]
      rfl
    · have hmem := (JsMap.mem_entries_groupBy ChainEvent.chainId).mpr
        ⟨(rfl : (events.filter fun e => e.chainId = chainId) = _), hnil⟩
      exact h _ (List.mem_map_of_mem hmem)
  · intro h c hc
    obtain ⟨⟨chainId, group⟩, hentry, rfl⟩ := List.mem_map.mp hc
    obtain ⟨rfl, -⟩ := (JsMap.mem_entries_groupBy ChainEvent.chainId).mp hentry
    rw [gaps_sortBySequence_iff (hgroup chainId), ← indicesOf_eq]
    exact h chainId

end audit

/-! ## An index that is used twice -/

/-- An event of a chain without data. -/
def eventAt (index : ℕ) (hash : String) : ChainEvent :=
  ⟨js "eip155:1", js hash, .ofNat index, js "2024-01-01T00:00:00.000Z", .ofEntries []⟩

/-- Two events are presented at one index. -/
def replayedIndex : List ChainEvent := [eventAt 2 "b", eventAt 1 "a", eventAt 2 "c"]

theorem indexed_replayedIndex : Indexed replayedIndex := by
  intro e he
  simp only [replayedIndex, List.mem_cons, List.not_mem_nil, or_false] at he
  rcases he with rfl | rfl | rfl
  · exact ⟨2, rfl⟩
  · exact ⟨1, rfl⟩
  · exact ⟨2, rfl⟩

theorem verdict_replayedIndex : (auditMultiChainReplay JsonValue.canonicalText compareTexts
    replayedIndex contiguousOnly []).verdict = .PASS := by
  rw [audit_eq_pass]
  decide +kernel

theorem contiguousAudit_iff_replayedIndex :
    (indicesOf replayedIndex (js "eip155:1")).OrdConnected :=
  (contiguousAudit_iff _ _ [] replayedIndex indexed_replayedIndex).mp verdict_replayedIndex _

/-- The audit passes, and the chain has two events of index two. -/
theorem replayedIndex_passes : ¬ ∀ canonicalize localeCompare auditedAt events, Indexed events →
    ((auditMultiChainReplay canonicalize localeCompare events contiguousOnly auditedAt).verdict =
      .PASS ↔ ∀ chainId, (indicesOf events chainId).OrdConnected ∧
        ((events.filter fun e => e.chainId = chainId).map ChainEvent.sequenceIndex).Nodup) := by
  intro hclaim
  have hnodup :=
    ((hclaim _ _ _ _ indexed_replayedIndex).mp verdict_replayedIndex (js "eip155:1")).2
  revert hnodup
  decide +kernel

end Attestia.Verify
