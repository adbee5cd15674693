import Attestia.Lib.Grouping
import Attestia.Lib.Jcs
import Attestia.Lib.JsValue
import Mathlib.Data.Fintype.Card
import Mathlib.Logic.Relation
import Mathlib.Order.WellFounded

/-!
# Double counting across chains

`preventDoubleCounting`: events of the same amount, symbol and addresses form a group, and in a
group the events of a chain that another chain of the group settles on are artifacts and are
removed. Nothing is lost: what is removed has an original that is kept, on a chain that settles,
over some others perhaps, on the chain of the artifact.
-/

namespace Attestia.Reconciler

open Lib Relation

structure CrossChainEvent where
  chainId : JsString
  txHash : JsString
  blockNumber : JsNumber
  amount : JsString
  symbol : JsString
  fromAddress : JsString
  toAddress : JsString
  timestamp : JsString
  deriving DecidableEq

/-- The chain that each chain settles on. -/
abbrev SettlementPairs := JsMap JsString JsString

def defaultSettlementPairs : SettlementPairs :=
  JsMap.setAll .empty
    [(js "eip155:42161", js "eip155:1"), (js "eip155:10", js "eip155:1"),
      (js "eip155:8453", js "eip155:1")]

def getSettlementChain (l2ChainId : JsString) (settlementPairs : SettlementPairs) :
    Option JsString :=
  settlementPairs.get? l2ChainId

/-- The key of the group of an event: the two addresses stand in their order as texts. -/
def transferKey (event : CrossChainEvent) : JsString :=
  let addresses :=
    List.intercalate (js "|") (Json.sortStrings [event.fromAddress, event.toAddress])
  event.amount ++ js ":" ++ event.symbol ++ js ":" ++ addresses

/-- The chains of a group that another one settles on. -/
def artifactChains (settlementPairs : SettlementPairs) (group : List CrossChainEvent) :
    List JsString :=
  let chainsPresent := (group.map CrossChainEvent.chainId).eraseDups
  chainsPresent.filterMap fun chainId =>
    (getSettlementChain chainId settlementPairs).filter fun settlesOn => settlesOn ∈ chainsPresent

structure Deduplicated where
  kept : List CrossChainEvent
  removed : List CrossChainEvent
  deriving DecidableEq

/-- The turn of the loop for a group. -/
def splitGroup (settlementPairs : SettlementPairs) (group : List CrossChainEvent) : Deduplicated :=
  if group.length ≤ 1 then ⟨group, []⟩
  else
    let artifacts := artifactChains settlementPairs group
    if artifacts ≠ [] then
      ⟨group.filter fun event => event.chainId ∉ artifacts,
        group.filter fun event => event.chainId ∈ artifacts⟩
    else ⟨group, []⟩

def preventDoubleCounting (settlementPairs : SettlementPairs) (events : List CrossChainEvent) :
    Deduplicated :=
  (JsMap.groupBy transferKey events).values.foldl
    (fun result group =>
      let split := splitGroup settlementPairs group
      ⟨result.kept ++ split.kept, result.removed ++ split.removed⟩)
    ⟨[], []⟩

/-! ## Artifacts -/

section artifacts

variable {settlementPairs : SettlementPairs} {events group : List CrossChainEvent}

/-- A chain settles on another one. -/
def SettlesOn (settlementPairs : SettlementPairs) (a b : JsString) : Prop :=
  settlementPairs.get? a = some b

/-- An event of the same group is on a chain that settles on the chain of the event. -/
def IsArtifact (settlementPairs : SettlementPairs) (events : List CrossChainEvent)
    (event : CrossChainEvent) : Prop :=
  ∃ o ∈ events, transferKey o = transferKey event ∧
    SettlesOn settlementPairs o.chainId event.chainId

instance (event : CrossChainEvent) : Decidable (IsArtifact settlementPairs events event) :=
  inferInstanceAs (Decidable (∃ o ∈ events, transferKey o = transferKey event ∧
    settlementPairs.get? o.chainId = some event.chainId))

/-- No chain settles on itself, over whatever others. -/
def Acyclic (settlementPairs : SettlementPairs) : Prop :=
  ∀ chainId, ¬ TransGen (SettlesOn settlementPairs) chainId chainId

theorem mem_artifactChains {chainId : JsString} :
    chainId ∈ artifactChains settlementPairs group ↔
      (∃ o ∈ group, SettlesOn settlementPairs o.chainId chainId) ∧
        ∃ e ∈ group, e.chainId = chainId := by
  simp only [artifactChains, getSettlementChain, List.mem_filterMap, List.mem_eraseDups,
    List.mem_map, Option.filter_eq_some_iff, decide_eq_true_eq, SettlesOn]
  constructor
  · rintro ⟨a, ⟨o, ho, rfl⟩, hsettles, hpresent⟩
    exact ⟨⟨o, ho, hsettles⟩, hpresent⟩
  · rintro ⟨⟨o, ho, hsettles⟩, hpresent⟩
    exact ⟨o.chainId, ⟨o, ho, rfl⟩, hsettles, hpresent⟩

/-- A group is split by its artifacts; one event alone is none, as no chain settles on itself. -/
theorem splitGroup_eq (hirrefl : ∀ chainId, ¬ SettlesOn settlementPairs chainId chainId)
    {k : JsString} (hkey : ∀ e ∈ group, transferKey e = k) :
    splitGroup settlementPairs group =
      ⟨group.filter fun e => ¬ IsArtifact settlementPairs group e,
        group.filter fun e => IsArtifact settlementPairs group e⟩ := by
  have hartifact : ∀ e ∈ group, e.chainId ∈ artifactChains settlementPairs group ↔
      IsArtifact settlementPairs group e := by
    intro e he
    rw [mem_artifactChains, and_iff_left ⟨e, he, rfl⟩]
    apply exists_congr
    intro o
    apply and_congr_right
    intro ho
    rw [hkey o ho, hkey e he, and_iff_right rfl]
  have hnone : (∀ e ∈ group, ¬ IsArtifact settlementPairs group e) →
      (⟨group, []⟩ : Deduplicated) = ⟨group.filter fun e => ¬ IsArtifact settlementPairs group e,
        group.filter fun e => IsArtifact settlementPairs group e⟩ := by
    intro h
    rw [List.filter_eq_self.mpr fun e he => decide_eq_true (h e he), eq_comm,
      Deduplicated.mk.injEq]
    refine ⟨rfl, List.filter_eq_nil_iff.mpr fun e he => ?_⟩
    rw [decide_eq_true_eq]
    exact h e he
  unfold splitGroup
  split
  · rename_i hlength
    apply hnone
    rintro e he ⟨o, ho, -, hsettles⟩
    have hone : group = [e] := by
      match group, hlength, he with
      | [a], _, he => rw [List.mem_singleton.mp he]
    rw [hone] at ho
    rw [List.mem_singleton.mp ho] at hsettles
    exact hirrefl _ hsettles
  · dsimp only
    split
    · rw [Deduplicated.mk.injEq]
      constructor <;> apply List.filter_congr <;> intro e he
      · rw [decide_eq_decide, hartifact e he]
      · rw [decide_eq_decide, hartifact e he]
    · rename_i hnil
      apply hnone
      intro e he h
      have hmem := (hartifact e he).mpr h
      rw [not_not.mp hnil] at hmem
      cases hmem

/-- The artifacts of a list are those of its groups. -/
theorem isArtifact_group_iff {e : CrossChainEvent} :
    IsArtifact settlementPairs (events.filter fun o => transferKey o = transferKey e) e ↔
      IsArtifact settlementPairs events e := by
  apply exists_congr
  intro o
  rw [List.mem_filter, decide_eq_true_eq, and_assoc]
  exact and_congr_right fun _ => and_iff_right_of_imp fun h => h.1

/-- What is kept and what is removed, in the order of the groups. -/
theorem preventDoubleCounting_eq
    (hirrefl : ∀ chainId, ¬ SettlesOn settlementPairs chainId chainId) :
    preventDoubleCounting settlementPairs events =
      ⟨(JsMap.groupBy transferKey events).values.flatten.filter fun e =>
          ¬ IsArtifact settlementPairs events e,
        (JsMap.groupBy transferKey events).values.flatten.filter fun e =>
          IsArtifact settlementPairs events e⟩ := by
  have hgroups : ∀ group ∈ (JsMap.groupBy transferKey events).values,
      splitGroup settlementPairs group =
        ⟨group.filter fun e => ¬ IsArtifact settlementPairs events e,
          group.filter fun e => IsArtifact settlementPairs events e⟩ := by
    intro group hgroup
    obtain ⟨k, hk⟩ := JsMap.mem_values.mp hgroup
    obtain ⟨hfilter, -⟩ := (JsMap.mem_entries_groupBy transferKey).mp (JsMap.get?_eq_some.mp hk)
    have hkey : ∀ e ∈ group, transferKey e = k := by
      intro e he
      rw [hfilter] at he
      exact of_decide_eq_true (List.mem_filter.mp he).2
    have hartifact : ∀ e ∈ group, IsArtifact settlementPairs group e ↔
        IsArtifact settlementPairs events e := by
      intro e he
      have hiff : IsArtifact settlementPairs
          (events.filter fun o => transferKey o = transferKey e) e ↔
            IsArtifact settlementPairs events e := isArtifact_group_iff
      rw [← hiff, hkey e he, ← hfilter]
    rw [splitGroup_eq hirrefl hkey, Deduplicated.mk.injEq]
    constructor <;> apply List.filter_congr <;> intro e he <;> rw [decide_eq_decide, hartifact e he]
  unfold preventDoubleCounting
  generalize (JsMap.groupBy transferKey events).values = groups at hgroups
  have hfold : ∀ start : Deduplicated, groups.foldl (fun result group =>
      let split := splitGroup settlementPairs group
      (⟨result.kept ++ split.kept, result.removed ++ split.removed⟩ : Deduplicated)) start =
        ⟨start.kept ++ groups.flatten.filter fun e => ¬ IsArtifact settlementPairs events e,
          start.removed ++ groups.flatten.filter fun e => IsArtifact settlementPairs events e⟩ := by
    induction groups with
    | nil =>
      intro start
      simp
    | cons group groups ih =>
      intro start
      obtain ⟨hgroup, hgroups⟩ := List.forall_mem_cons.mp hgroups
      rw [List.foldl_cons, hgroup, ih hgroups, List.flatten_cons, List.filter_append,
        List.filter_append, List.append_assoc, List.append_assoc]
  rw [hfold]
  rfl

end artifacts

/-! ## Keys of transfers -/

section keys

/-- A list is cut at its first element of a kind in one way. -/
theorem append_cons_inj_of_notMem_left {α : Type*} {x : α} {a b s t : List α} (ha : x ∉ a)
    (hb : x ∉ b) (h : a ++ x :: s = b ++ x :: t) : a = b ∧ s = t := by
  rcases List.append_eq_append_iff.mp h with ⟨d, rfl, hd⟩ | ⟨d, rfl, hd⟩
  · cases d with
    | nil => exact ⟨(List.append_nil a).symm, (List.cons.inj hd).2⟩
    | cons y d => exact absurd (List.mem_append_right a ((List.cons.inj hd).1 ▸ .head d)) hb
  · cases d with
    | nil => exact ⟨List.append_nil b, (List.cons.inj hd).2.symm⟩
    | cons y d => exact absurd (List.mem_append_right b ((List.cons.inj hd).1 ▸ .head d)) ha

/-- The separators of a key occur in none of its parts. -/
structure Separable (event : CrossChainEvent) : Prop where
  amount : 58 ∉ event.amount
  symbol : 58 ∉ event.symbol
  fromAddress : 124 ∉ event.fromAddress
  toAddress : 124 ∉ event.toAddress

theorem exists_sorted_pair (a b : JsString) :
    ∃ x y, Json.sortStrings [a, b] = [x, y] ∧ [x, y].Perm [a, b] := by
  have hperm : (Json.sortStrings [a, b]).Perm [a, b] := List.perm_insertionSort _ _
  obtain ⟨x, y, hxy⟩ := List.length_eq_two.mp hperm.length_eq
  exact ⟨x, y, hxy, hxy ▸ hperm⟩

/-- The key of a transfer is its amount, its symbol and its two addresses, whichever way it goes. -/
theorem transferKey_inj {e o : CrossChainEvent} (he : Separable e) (ho : Separable o)
    (h : transferKey o = transferKey e) :
    o.amount = e.amount ∧ o.symbol = e.symbol ∧
      [o.fromAddress, o.toAddress].Perm [e.fromAddress, e.toAddress] := by
  obtain ⟨x, y, hxy, hperm⟩ := exists_sorted_pair o.fromAddress o.toAddress
  obtain ⟨x', y', hxy', hperm'⟩ := exists_sorted_pair e.fromAddress e.toAddress
  have hcolon : js ":" = [58] := by decide
  have hbar : js "|" = [124] := by decide
  simp only [transferKey, hxy, hxy', hcolon, hbar, List.intercalate, List.intersperse,
    List.flatten_cons, List.flatten_nil, List.append_nil, List.append_assoc,
    List.singleton_append] at h
  obtain ⟨hamount, h⟩ := append_cons_inj_of_notMem_left ho.amount he.amount h
  obtain ⟨hsymbol, h⟩ := append_cons_inj_of_notMem_left ho.symbol he.symbol h
  have hx : 124 ∉ x := by
    rcases List.mem_pair.mp (hperm.mem_iff.mp (.head _)) with rfl | rfl
    · exact ho.fromAddress
    · exact ho.toAddress
  have hx' : 124 ∉ x' := by
    rcases List.mem_pair.mp (hperm'.mem_iff.mp (.head _)) with rfl | rfl
    · exact he.fromAddress
    · exact he.toAddress
  obtain ⟨rfl, rfl⟩ := append_cons_inj_of_notMem_left hx hx' h
  exact ⟨hamount, hsymbol, hperm.symm.trans hperm'⟩

end keys

/-! ## Nothing is lost -/

section originals

variable {settlementPairs : SettlementPairs} {events : List CrossChainEvent}

theorem Acyclic.not_settlesOn (h : Acyclic settlementPairs) (chainId : JsString) :
    ¬ SettlesOn settlementPairs chainId chainId := fun hself => h chainId (.single hself)

theorem perm_kept_removed (hirrefl : ∀ chainId, ¬ SettlesOn settlementPairs chainId chainId) :
    (preventDoubleCounting settlementPairs events).kept.Perm
        (events.filter fun e => ¬ IsArtifact settlementPairs events e) ∧
      (preventDoubleCounting settlementPairs events).removed.Perm
        (events.filter fun e => IsArtifact settlementPairs events e) := by
  have hgroups := JsMap.perm_flatten_groupBy transferKey events
  rw [preventDoubleCounting_eq hirrefl]
  exact ⟨hgroups.filter _, hgroups.filter _⟩

theorem mem_kept_iff (hirrefl : ∀ chainId, ¬ SettlesOn settlementPairs chainId chainId)
    {e : CrossChainEvent} : e ∈ (preventDoubleCounting settlementPairs events).kept ↔
      e ∈ events ∧ ¬ IsArtifact settlementPairs events e := by
  rw [(perm_kept_removed hirrefl).1.mem_iff, List.mem_filter, decide_eq_true_eq]

theorem mem_removed_iff (hirrefl : ∀ chainId, ¬ SettlesOn settlementPairs chainId chainId)
    {e : CrossChainEvent} : e ∈ (preventDoubleCounting settlementPairs events).removed ↔
      e ∈ events ∧ IsArtifact settlementPairs events e := by
  rw [(perm_kept_removed hirrefl).2.mem_iff, List.mem_filter, decide_eq_true_eq]

/-- Going from an artifact to the event that settles on its chain ends, as the chains of the list
are finitely many and none is met twice; it ends at an event that is kept. -/
theorem exists_original (hacyclic : Acyclic settlementPairs) {e : CrossChainEvent}
    (he : e ∈ events) (hartifact : IsArtifact settlementPairs events e) :
    ∃ o ∈ events, ¬ IsArtifact settlementPairs events o ∧ transferKey o = transferKey e ∧
      TransGen (SettlesOn settlementPairs) o.chainId e.chainId := by
  let Chain := {c : JsString // c ∈ events.map CrossChainEvent.chainId}
  let settles : Chain → Chain → Prop := fun a b => TransGen (SettlesOn settlementPairs) a.1 b.1
  have hfinite : Finite Chain := List.finite_toSet _
  have htrans : IsTrans Chain settles := ⟨fun _ _ _ => TransGen.trans⟩
  have hirrefl : Std.Irrefl settles := ⟨fun a => hacyclic a.1⟩
  have hwf : WellFounded settles := Finite.wellFounded_of_trans_of_irrefl settles
  have hchain : ∀ a ∈ events, a.chainId ∈ events.map CrossChainEvent.chainId :=
    fun a ha => List.mem_map_of_mem ha
  -- the original of the event before is the original of the artifact
  have hinduct : ∀ c : Chain, ∀ a ∈ events, a.chainId = c.1 →
      IsArtifact settlementPairs events a →
      ∃ o ∈ events, ¬ IsArtifact settlementPairs events o ∧ transferKey o = transferKey a ∧
        TransGen (SettlesOn settlementPairs) o.chainId a.chainId := by
    intro c
    induction c using hwf.induction with
    | _ c ih =>
      rintro a ha hac ⟨b, hb, hkey, hsettles⟩
      by_cases hart : IsArtifact settlementPairs events b
      · obtain ⟨o, ho, hkept, hokey, hreach⟩ :=
          ih ⟨b.chainId, hchain b hb⟩ (.single (hac ▸ hsettles)) b hb rfl hart
        exact ⟨o, ho, hkept, hokey.trans hkey, hreach.tail hsettles⟩
      · exact ⟨b, hb, hart, hkey, .single hsettles⟩
  exact hinduct ⟨e.chainId, hchain e he⟩ e he rfl hartifact

/-- Among the events that are kept no artifact is left. -/
theorem not_isArtifact_kept (hirrefl : ∀ chainId, ¬ SettlesOn settlementPairs chainId chainId)
    {e : CrossChainEvent} (he : e ∈ (preventDoubleCounting settlementPairs events).kept) :
    ¬ IsArtifact settlementPairs (preventDoubleCounting settlementPairs events).kept e := by
  rintro ⟨o, ho, hkey, hsettles⟩
  exact ((mem_kept_iff hirrefl).mp he).2 ⟨o, ((mem_kept_iff hirrefl).mp ho).1, hkey, hsettles⟩

theorem preventDoubleCounting_kept
    (hirrefl : ∀ chainId, ¬ SettlesOn settlementPairs chainId chainId) :
    preventDoubleCounting settlementPairs (preventDoubleCounting settlementPairs events).kept =
      ⟨(preventDoubleCounting settlementPairs events).kept, []⟩ := by
  have hnone := fun e he => @not_isArtifact_kept settlementPairs events hirrefl e he
  have hflatten : (JsMap.groupBy transferKey
      (preventDoubleCounting settlementPairs events).kept).values.flatten =
        (preventDoubleCounting settlementPairs events).kept := by
    rw [preventDoubleCounting_eq hirrefl]
    exact JsMap.flatten_groupBy_filter transferKey events _
  have hagain : preventDoubleCounting settlementPairs
      (preventDoubleCounting settlementPairs events).kept = _ := preventDoubleCounting_eq hirrefl
  rw [hagain, hflatten, Deduplicated.mk.injEq]
  constructor
  · exact List.filter_eq_self.mpr fun e he => decide_eq_true (hnone e he)
  · rw [List.filter_eq_nil_iff]
    intro e he h
    exact hnone e he (of_decide_eq_true h)

/-- The artifacts do not depend on the order of the events. -/
theorem isArtifact_congr {events' : List CrossChainEvent} (h : events'.Perm events)
    (e : CrossChainEvent) :
    IsArtifact settlementPairs events' e ↔ IsArtifact settlementPairs events e := by
  apply exists_congr
  intro o
  rw [h.mem_iff]

theorem preventDoubleCounting_perm {events' : List CrossChainEvent}
    (hirrefl : ∀ chainId, ¬ SettlesOn settlementPairs chainId chainId) (h : events'.Perm events) :
    (preventDoubleCounting settlementPairs events').kept.Perm
        (preventDoubleCounting settlementPairs events).kept ∧
      (preventDoubleCounting settlementPairs events').removed.Perm
        (preventDoubleCounting settlementPairs events).removed := by
  obtain ⟨hkept, hremoved⟩ := @perm_kept_removed settlementPairs events hirrefl
  obtain ⟨hkept', hremoved'⟩ := @perm_kept_removed settlementPairs events' hirrefl
  simp only [isArtifact_congr h] at hkept' hremoved'
  exact ⟨hkept'.trans ((h.filter _).trans hkept.symm),
    hremoved'.trans ((h.filter _).trans hremoved.symm)⟩

/-- Every event is kept or removed; what is removed has an original that is kept; and neither
another run nor another order of the events changes what is kept. -/
theorem doubleCounting_keepsOriginals (hacyclic : Acyclic settlementPairs)
    (events : List CrossChainEvent) :
    let result := preventDoubleCounting settlementPairs events
    (result.kept ++ result.removed).Perm events ∧
    (∀ e ∈ result.kept, e ∉ result.removed) ∧
    (∀ e ∈ result.removed, ∃ o ∈ result.kept, transferKey o = transferKey e ∧
      TransGen (SettlesOn settlementPairs) o.chainId e.chainId ∧
      (Separable o → Separable e → o.amount = e.amount ∧ o.symbol = e.symbol ∧
        [o.fromAddress, o.toAddress].Perm [e.fromAddress, e.toAddress])) ∧
    preventDoubleCounting settlementPairs result.kept = ⟨result.kept, []⟩ ∧
    ∀ events', events'.Perm events →
      (preventDoubleCounting settlementPairs events').kept.Perm result.kept ∧
        (preventDoubleCounting settlementPairs events').removed.Perm result.removed := by
  have hirrefl := hacyclic.not_settlesOn
  obtain ⟨hkept, hremoved⟩ := @perm_kept_removed settlementPairs events hirrefl
  refine ⟨?_, ?_, ?_, preventDoubleCounting_kept hirrefl, fun events' h =>
    preventDoubleCounting_perm hirrefl h⟩
  · have hsplit := List.filter_append_perm (fun e => ! decide (IsArtifact settlementPairs events e))
      events
    simp only [← decide_not, not_not] at hsplit
    exact (hkept.append hremoved).trans hsplit
  · intro e he hr
    exact ((mem_kept_iff hirrefl).mp he).2 ((mem_removed_iff hirrefl).mp hr).2
  · intro e he
    obtain ⟨hmem, hartifact⟩ := (mem_removed_iff hirrefl).mp he
    obtain ⟨o, ho, horiginal, hkey, hsettles⟩ := exists_original hacyclic hmem hartifact
    exact ⟨o, (mem_kept_iff hirrefl).mpr ⟨ho, horiginal⟩, hkey, hsettles,
      fun hso hse => transferKey_inj hse hso hkey⟩

end originals

/-! ## The chains of the default map -/

theorem settlesOn_default {a b : JsString} (h : SettlesOn defaultSettlementPairs a b) :
    b = js "eip155:1" ∧ a ≠ js "eip155:1" := by
  have hmem := JsMap.get?_eq_some.mp h
  have hentries : defaultSettlementPairs.entries =
      [(js "eip155:42161", js "eip155:1"), (js "eip155:10", js "eip155:1"),
        (js "eip155:8453", js "eip155:1")] := by decide
  rw [hentries] at hmem
  simp only [List.mem_cons, Prod.mk.injEq, List.not_mem_nil, or_false] at hmem
  obtain ⟨rfl, rfl⟩ | ⟨rfl, rfl⟩ | ⟨rfl, rfl⟩ := hmem <;> decide

theorem acyclic_default : Acyclic defaultSettlementPairs := by
  intro chainId h
  obtain ⟨b, -, hlast⟩ := TransGen.tail'_iff.mp h
  obtain ⟨c, hfirst, -⟩ := TransGen.head'_iff.mp h
  exact (settlesOn_default hfirst).2 (settlesOn_default hlast).1

/-- A transfer of ten from Alice to Bob on a chain. -/
def tenOn (chainId txHash : JsString) : CrossChainEvent :=
  ⟨chainId, txHash, .finite 1, js "10", js "USDC", js "alice", js "bob",
    js "2024-01-01T00:00:00.000Z"⟩

/-- One transfer on the second layer, two on the first. -/
def settledTwice : List CrossChainEvent :=
  [tenOn (js "eip155:10") (js "a"), tenOn (js "eip155:1") (js "b"), tenOn (js "eip155:1") (js "c")]

theorem doubleCounting_keepsOriginals_settledTwice :
    ∃ o ∈ (preventDoubleCounting defaultSettlementPairs settledTwice).kept,
      TransGen (SettlesOn defaultSettlementPairs) o.chainId (js "eip155:1") := by
  obtain ⟨-, -, horiginal, -⟩ := doubleCounting_keepsOriginals acyclic_default settledTwice
  obtain ⟨o, ho, -, hsettles, -⟩ :=
    horiginal (tenOn (js "eip155:1") (js "b")) (by decide +kernel)
  exact ⟨o, ho, hsettles⟩

/-- Two events are removed and one is kept. -/
theorem settledTwice_undercounted : ¬ ∀ settlementPairs events, Acyclic settlementPairs →
    ∃ original : Fin (preventDoubleCounting settlementPairs events).removed.length →
        Fin (preventDoubleCounting settlementPairs events).kept.length,
      Function.Injective original := by
  intro hclaim
  obtain ⟨original, hinjective⟩ := hclaim _ settledTwice acyclic_default
  have hle := Fintype.card_le_of_injective original hinjective
  rw [Fintype.card_fin, Fintype.card_fin] at hle
  revert hle
  decide +kernel

end Attestia.Reconciler
