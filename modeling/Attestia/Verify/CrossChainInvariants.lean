import Attestia.Ledger.MoneyMath
import Attestia.Lib.Grouping

/-!
# Invariants of events across chains

`cross-chain-invariants.ts`: the amounts that bridges take in and give out are summed up by symbol,
and every settlement has to name an event that no other one names.
-/

namespace Attestia.Verify

open Lib JsonNumber Ledger

structure InvariantEvent where
  chainId : JsString
  eventId : JsString
  eventType : JsString
  amount : JsString
  decimals : Option Number
  symbol : JsString
  sequenceIndex : Number
  timestamp : JsString
  linkedEventId : Option JsString
  settlementChainId : Option JsString

structure InvariantCheckResult where
  invariant : JsString
  holds : Bool
  violations : List JsString

def checkResult (invariant : String) (violations : List JsString) : InvariantCheckResult :=
  ⟨js invariant, violations = [], violations⟩

/-! ## Asset conservation -/

namespace InvariantEvent

def isOutflow (event : InvariantEvent) : Bool := event.eventType = js "bridge_out"

def isBridge (event : InvariantEvent) : Bool := event.isOutflow || event.eventType = js "bridge_in"

/-- `event.decimals ?? 0`. -/
def scale (event : InvariantEvent) : Number := event.decimals.getD (.ofNat 0)

end InvariantEvent

/-- The sums of a symbol, at the scale of its first event. -/
structure Bucket where
  outflows : ℤ
  inflows : ℤ
  decimals : Number

def Bucket.add (bucket : Bucket) (event : InvariantEvent) (amount : ℤ) : Bucket :=
  if event.isOutflow then { bucket with outflows := bucket.outflows + amount }
  else { bucket with inflows := bucket.inflows + amount }

structure ConservationState where
  violations : List JsString
  bySymbol : JsMap JsString Bucket

def mixedScales (event : InvariantEvent) (existing : Bucket) : JsString :=
  js "Mixed decimal scales for " ++ event.symbol ++ js ": event " ++ event.eventId ++
    js " declares decimals=" ++ JsonValue.numberString event.scale ++ js ", but " ++
    JsonValue.numberString existing.decimals ++ js " was already recorded for this symbol"

def invalidBridgeAmount (event : InvariantEvent) : JsString :=
  js "Invalid amount \"" ++ event.amount ++ js "\" for event " ++ event.eventId

/-- The turn of the loop for an event of a bridge. -/
def addBridge (state : ConservationState) (event : InvariantEvent) : ConservationState :=
  let existing := state.bySymbol.get? event.symbol
  match existing.filter fun bucket => bucket.decimals ≠ event.scale with
  | some bucket => { state with violations := state.violations ++ [mixedScales event bucket] }
  | none =>
    match parseAmount event.amount event.scale with
    | .error _ => { state with violations := state.violations ++ [invalidBridgeAmount event] }
    | .ok amount =>
      let bucket := existing.getD ⟨0, 0, event.scale⟩
      { state with bySymbol := state.bySymbol.set event.symbol (bucket.add event amount) }

def collectBridges (events : List InvariantEvent) : ConservationState :=
  (events.filter InvariantEvent.isBridge).foldl addBridge ⟨[], .empty⟩

/-- The violation of a symbol whose sums differ. -/
def imbalance (symbol : JsString) (bucket : Bucket) : List JsString :=
  if bucket.outflows ≠ bucket.inflows then
    [js "Asset conservation violation for " ++ symbol ++ js ": outflows=" ++
      bigintText bucket.outflows ++ js ", inflows=" ++ bigintText bucket.inflows ++ js ", delta=" ++
      bigintText (bucket.outflows - bucket.inflows)]
  else []

def checkAssetConservation (events : List InvariantEvent) : InvariantCheckResult :=
  let state := collectBridges events
  checkResult "asset_conservation"
    (state.violations ++ state.bySymbol.entries.flatMap fun e => imbalance e.1 e.2)

/-! ## Duplicate settlements -/

def isSettlement (event : InvariantEvent) : Bool := event.eventType = js "settlement"

/-- A text that counts as true. -/
def truthyText (s : Option JsString) : Option JsString := s.filter fun t => t ≠ []

structure SettlementState where
  violations : List JsString
  settled : JsMap JsString JsString

def unlinkedSettlement (event : InvariantEvent) : JsString :=
  js "Settlement event " ++ event.eventId ++ js " has no linkedEventId"

def duplicateSettlement (linkedEventId existing eventId : JsString) : JsString :=
  js "Duplicate settlement: event " ++ linkedEventId ++ js " settled by both " ++ existing ++
    js " and " ++ eventId

/-- The turn of the loop for a settlement; an earlier one of an empty id does not count. -/
def addSettlement (state : SettlementState) (event : InvariantEvent) : SettlementState :=
  match truthyText event.linkedEventId with
  | none => { state with violations := state.violations ++ [unlinkedSettlement event] }
  | some linked =>
    ⟨state.violations ++ ((truthyText (state.settled.get? linked)).map fun existing =>
        duplicateSettlement linked existing event.eventId).toList,
      state.settled.set linked event.eventId⟩

def collectSettlements (events : List InvariantEvent) : SettlementState :=
  (events.filter isSettlement).foldl addSettlement ⟨[], .empty⟩

def checkNoDuplicateSettlement (events : List InvariantEvent) : InvariantCheckResult :=
  checkResult "no_duplicate_settlement" (collectSettlements events).violations

theorem holds_checkResult {invariant : String} {violations : List JsString} :
    (checkResult invariant violations).holds = true ↔ violations = [] := decide_eq_true_iff

/-! ## What the conservation check decides -/

section conservation

variable {bridges : List InvariantEvent}

/-- The integer of an amount, at the scale of its event. -/
def parsedAmount (event : InvariantEvent) : ℤ :=
  (parseAmount event.amount event.scale).toOption.getD 0

def totalFlow (bridges : List InvariantEvent) (symbol : JsString) (out : Bool) : ℤ :=
  ((bridges.filter fun e => e.symbol = symbol && e.isOutflow == out).map parsedAmount).sum

/-- All amounts can be read, and those of a symbol are of one scale. -/
structure Summed (bridges : List InvariantEvent) : Prop where
  parses : ∀ e ∈ bridges, ∃ amount, parseAmount e.amount e.scale = .ok amount
  scales : ∀ e ∈ bridges, ∀ o ∈ bridges, e.symbol = o.symbol → e.scale = o.scale

/-- The sums of a symbol, where it has events. -/
def bucketOf (bridges : List InvariantEvent) (symbol : JsString) : Option Bucket :=
  (bridges.find? fun e => e.symbol = symbol).map fun e =>
    ⟨totalFlow bridges symbol true, totalFlow bridges symbol false, e.scale⟩

theorem totalFlow_append_singleton (event : InvariantEvent) (symbol : JsString) (out : Bool) :
    totalFlow (bridges ++ [event]) symbol out = totalFlow bridges symbol out +
      if event.symbol = symbol ∧ event.isOutflow = out then parsedAmount event else 0 := by
  rw [totalFlow, List.filter_append, List.map_append, List.sum_append, totalFlow]
  congr 1
  by_cases h : event.symbol = symbol ∧ event.isOutflow = out
  · simp [h.1, h.2]
  · rw [if_neg h, List.filter_cons_of_neg (by simpa using h)]
    rfl

theorem Summed.of_append {more : List InvariantEvent} (h : Summed (bridges ++ more)) :
    Summed bridges where
  parses e he := h.parses e (List.mem_append_left _ he)
  scales e he o ho := h.scales e (List.mem_append_left _ he) o (List.mem_append_left _ ho)

/-- Without events of a symbol nothing flows. -/
theorem totalFlow_of_none {symbol : JsString} {out : Bool}
    (h : (bridges.find? fun e => e.symbol = symbol) = none) : totalFlow bridges symbol out = 0 := by
  have hsub : (bridges.filter fun e => e.symbol = symbol && e.isOutflow == out) = [] := by
    rw [List.filter_eq_nil_iff]
    intro e he hboth
    exact List.find?_eq_none.mp h e he (Bool.and_eq_true_iff.mp hboth).1
  rw [totalFlow, hsub]
  rfl

/-- The bucket of a symbol behind one more event. -/
theorem bucketOf_append_singleton {event : InvariantEvent} {amount : ℤ}
    (hparse : parseAmount event.amount event.scale = .ok amount) (symbol : JsString) :
    bucketOf (bridges ++ [event]) symbol =
      if event.symbol = symbol then
        some (((bucketOf bridges symbol).getD ⟨0, 0, event.scale⟩).add event amount)
      else bucketOf bridges symbol := by
  have hamount : parsedAmount event = amount := by
    rw [parsedAmount, hparse]
    rfl
  split
  · rename_i hsymbol
    rw [bucketOf, bucketOf, List.find?_append, totalFlow_append_singleton,
      totalFlow_append_singleton, hamount]
    cases hfirst : bridges.find? fun e => e.symbol = symbol with
    | none =>
      rw [totalFlow_of_none hfirst, totalFlow_of_none hfirst]
      cases hout : event.isOutflow <;> simp [Bucket.add, hsymbol, hout]
    | some first => cases hout : event.isOutflow <;> simp [Bucket.add, hsymbol, hout]
  · rename_i hsymbol
    have hflow : ∀ out,
        totalFlow (bridges ++ [event]) symbol out = totalFlow bridges symbol out := by
      intro out
      rw [totalFlow_append_singleton, if_neg fun h => hsymbol h.1, add_zero]
    rw [bucketOf, bucketOf, hflow, hflow, List.find?_append,
      List.find?_cons_of_neg (by simpa using hsymbol), List.find?_nil, Option.or_none]

theorem of_find?_eq_some {symbol : JsString} {first : InvariantEvent}
    (h : (bridges.find? fun e => e.symbol = symbol) = some first) :
    first ∈ bridges ∧ first.symbol = symbol := by
  have hsymbol := List.find?_some h
  rw [decide_eq_true_eq] at hsymbol
  exact ⟨List.mem_of_find?_eq_some h, hsymbol⟩

/-- A symbol whose events are of one scale has the scale of each. -/
theorem decimals_of_bucketOf (h : Summed bridges) {e : InvariantEvent} (he : e ∈ bridges) :
    ∃ bucket, bucketOf bridges e.symbol = some bucket ∧ bucket.decimals = e.scale := by
  cases hfirst : bridges.find? fun o => o.symbol = e.symbol with
  | none => exact absurd (decide_eq_true rfl) (List.find?_eq_none.mp hfirst e he)
  | some first =>
    refine ⟨_, by rw [bucketOf, hfirst]; rfl, ?_⟩
    obtain ⟨hmem, hsymbol⟩ := of_find?_eq_some hfirst
    exact h.scales first hmem e he hsymbol

/-- The loop finds no fault exactly where the amounts can be summed up, and then its map holds the
sums. -/
structure Collected (bridges : List InvariantEvent) (state : ConservationState) : Prop where
  clean : state.violations = [] ↔ Summed bridges
  sums : state.violations = [] → ∀ symbol, state.bySymbol.get? symbol = bucketOf bridges symbol

theorem collected_addBridge {state : ConservationState} (h : Collected bridges state)
    (event : InvariantEvent) : Collected (bridges ++ [event]) (addBridge state event) := by
  have hlast : event ∈ bridges ++ [event] := List.mem_append_right _ (.head _)
  -- a violation of the event itself
  have hfault : ∀ message, ¬ Summed (bridges ++ [event]) →
      Collected (bridges ++ [event])
        { state with violations := state.violations ++ [message] } := fun message hnot =>
    ⟨iff_of_false (fun hnil => List.cons_ne_nil _ _ (List.append_eq_nil_iff.mp hnil).2) hnot,
      fun hnil => absurd (List.append_eq_nil_iff.mp hnil).2 (List.cons_ne_nil _ _)⟩
  unfold addBridge
  dsimp only
  split
  · rename_i bucket hexisting
    obtain ⟨hget, hne⟩ := Option.filter_eq_some_iff.mp hexisting
    apply hfault
    intro hsummed
    have hclean := h.clean.mpr hsummed.of_append
    rw [h.sums hclean, bucketOf, Option.map_eq_some_iff] at hget
    obtain ⟨first, hfirst, rfl⟩ := hget
    obtain ⟨hmem, hsymbol⟩ := of_find?_eq_some hfirst
    exact of_decide_eq_true hne
      (hsummed.scales first (List.mem_append_left _ hmem) event hlast hsymbol)
  · rename_i hexisting
    split
    · rename_i error hparse
      apply hfault
      intro hsummed
      obtain ⟨amount, hamount⟩ := hsummed.parses event hlast
      rw [hparse] at hamount
      cases hamount
    · rename_i amount hparse
      constructor
      · show state.violations = [] ↔ _
        refine ⟨fun hclean => ?_, fun hsummed => h.clean.mpr hsummed.of_append⟩
        have hsummed := h.clean.mp hclean
        have hscale : ∀ e ∈ bridges, e.symbol = event.symbol → e.scale = event.scale := by
          intro e he hsymbol
          obtain ⟨bucket, hbucket, hdecimals⟩ := decimals_of_bucketOf hsummed he
          rw [← hdecimals]
          by_contra hne
          rw [h.sums hclean, ← hsymbol, hbucket, Option.filter_some,
            if_pos (decide_eq_true hne)] at hexisting
          cases hexisting
        constructor
        · intro e he
          rcases List.mem_append.mp he with he | he
          · exact hsummed.parses e he
          · exact List.mem_singleton.mp he ▸ ⟨amount, hparse⟩
        · intro e he o ho hsymbol
          rcases List.mem_append.mp he with he | he <;> rcases List.mem_append.mp ho with ho | ho
          · exact hsummed.scales e he o ho hsymbol
          · rw [List.mem_singleton.mp ho] at hsymbol ⊢
            exact hscale e he hsymbol
          · rw [List.mem_singleton.mp he] at hsymbol ⊢
            exact (hscale o ho hsymbol.symm).symm
          · rw [List.mem_singleton.mp he, List.mem_singleton.mp ho]
      · intro hclean symbol
        show (state.bySymbol.set event.symbol _).get? symbol = _
        rw [JsMap.get?_set, bucketOf_append_singleton hparse, h.sums hclean, h.sums hclean]
        split
        · rename_i hsymbol
          rw [hsymbol]
        · rfl

theorem collected_collectBridges (events : List InvariantEvent) :
    Collected (events.filter InvariantEvent.isBridge) (collectBridges events) := by
  unfold collectBridges
  generalize events.filter InvariantEvent.isBridge = bridges
  induction bridges using List.reverseRecOn with
  | nil =>
    refine ⟨iff_of_true rfl ⟨?_, ?_⟩, fun _ symbol => rfl⟩
    · exact fun e he => absurd he List.not_mem_nil
    · exact fun e he => absurd he List.not_mem_nil
  | append_singleton bridges event ih =>
    rw [List.foldl_append]
    exact collected_addBridge ih event

/-- All amounts of bridges can be read, and those of a symbol are of one scale and balance. -/
structure Conserved (events : List InvariantEvent) : Prop
    extends Summed (events.filter InvariantEvent.isBridge) where
  balance : ∀ symbol, totalFlow (events.filter InvariantEvent.isBridge) symbol true =
    totalFlow (events.filter InvariantEvent.isBridge) symbol false

theorem imbalance_eq_nil_iff {symbol : JsString} {bucket : Bucket} :
    imbalance symbol bucket = [] ↔ bucket.outflows = bucket.inflows := by
  unfold imbalance
  split
  · rename_i hne
    exact iff_of_false (List.cons_ne_nil _ _) hne
  · rename_i heq
    exact iff_of_true rfl (not_not.mp heq)

theorem conservation_holds_iff (events : List InvariantEvent) :
    (checkAssetConservation events).holds = true ↔ Conserved events := by
  obtain ⟨hclean, hsums⟩ := collected_collectBridges events
  rw [checkAssetConservation, holds_checkResult, List.append_eq_nil_iff, List.flatMap_eq_nil_iff]
  constructor
  · rintro ⟨hnil, hbalanced⟩
    refine ⟨hclean.mp hnil, fun symbol => ?_⟩
    have hget := hsums hnil symbol
    cases hfirst : (events.filter InvariantEvent.isBridge).find? fun e => e.symbol = symbol with
    | none => rw [totalFlow_of_none hfirst, totalFlow_of_none hfirst]
    | some first =>
      rw [bucketOf, hfirst] at hget
      exact imbalance_eq_nil_iff.mp (hbalanced _ (JsMap.get?_eq_some.mp hget))
  · rintro ⟨hsummed, hbalance⟩
    have hnil := hclean.mpr hsummed
    refine ⟨hnil, fun e he => imbalance_eq_nil_iff.mpr ?_⟩
    have hget := JsMap.get?_eq_some.mpr he
    rw [hsums hnil, bucketOf, Option.map_eq_some_iff] at hget
    obtain ⟨first, -, hbucket⟩ := hget
    rw [← hbucket]
    exact hbalance e.1

end conservation

/-! ## What the settlement check decides -/

section settlements

variable {settlements : List InvariantEvent}

theorem truthyText_eq_some {s : Option JsString} {t : JsString} :
    truthyText s = some t ↔ s = some t ∧ t ≠ [] := by
  rw [truthyText, Option.filter_eq_some_iff, decide_eq_true_eq]

/-- Every settlement names an event. -/
def AllNamed (settlements : List InvariantEvent) : Prop :=
  ∀ e ∈ settlements, (truthyText e.linkedEventId).isSome

/-- Of two settlements of one event, the first one has an empty id. -/
def Unnoticed (e o : InvariantEvent) : Prop := e.linkedEventId = o.linkedEventId → e.eventId = []

/-- The loop finds no fault exactly where every settlement names an event and no repetition is
noticed; its map holds the last settlement of each event. -/
structure Settled (settlements : List InvariantEvent) (state : SettlementState) : Prop where
  clean : state.violations = [] ↔ AllNamed settlements ∧ settlements.Pairwise Unnoticed
  last : ∀ linked, state.settled.get? linked =
    (settlements.reverse.find? fun e => truthyText e.linkedEventId = some linked).map
      InvariantEvent.eventId

theorem pairwise_append_singleton {e : InvariantEvent} :
    (settlements ++ [e]).Pairwise Unnoticed ↔
      settlements.Pairwise Unnoticed ∧ ∀ a ∈ settlements, Unnoticed a e := by
  rw [List.pairwise_append]
  simp only [List.pairwise_singleton, List.mem_singleton, forall_eq, true_and]

/-- The last settlement of an event stands for all earlier ones. -/
theorem unnoticed_iff_last {e : InvariantEvent} {linked : JsString}
    (hlinked : truthyText e.linkedEventId = some linked)
    (hpairwise : settlements.Pairwise Unnoticed) :
    (∀ a ∈ settlements, Unnoticed a e) ↔
      ∀ a, (settlements.reverse.find? fun o => truthyText o.linkedEventId = some linked) = some a →
        a.eventId = [] := by
  have hlink : ∀ a : InvariantEvent, a.linkedEventId = e.linkedEventId ↔
      truthyText a.linkedEventId = some linked := by
    intro a
    rw [truthyText_eq_some, (truthyText_eq_some.mp hlinked).1]
    exact ⟨fun h => ⟨h, (truthyText_eq_some.mp hlinked).2⟩, fun h => h.1⟩
  constructor
  · intro h a ha
    have hcheck := List.find?_some ha
    rw [decide_eq_true_eq] at hcheck
    exact h a (List.mem_reverse.mp (List.mem_of_find?_eq_some ha)) ((hlink a).mpr hcheck)
  · intro h a ha hsame
    have hreverse : settlements.reverse.Pairwise fun a b => Unnoticed b a :=
      List.pairwise_reverse.mpr hpairwise
    have hmem : a ∈ settlements.reverse := List.mem_reverse.mpr ha
    generalize settlements.reverse = l at h hreverse hmem
    induction l with
    | nil => cases hmem
    | cons b l ih =>
      obtain ⟨hfirst, hrest⟩ := List.pairwise_cons.mp hreverse
      by_cases hb : truthyText b.linkedEventId = some linked
      · rcases List.mem_cons.mp hmem with rfl | hmem
        · exact h a (List.find?_cons_of_pos (decide_eq_true hb))
        · exact hfirst a hmem (hsame.trans ((hlink b).mpr hb).symm)
      · rcases List.mem_cons.mp hmem with rfl | hmem
        · exact absurd ((hlink a).mp hsame) hb
        · refine ih (fun c hc => h c ?_) hrest hmem
          rw [List.find?_cons_of_neg (by simpa using hb), hc]

theorem settled_addSettlement {state : SettlementState} (h : Settled settlements state)
    (event : InvariantEvent) : Settled (settlements ++ [event]) (addSettlement state event) := by
  have hlast : event ∈ settlements ++ [event] := List.mem_append_right _ (.head _)
  unfold addSettlement
  split
  · rename_i hnone
    constructor
    · refine iff_of_false (fun hnil => List.cons_ne_nil _ _ (List.append_eq_nil_iff.mp hnil).2) ?_
      rintro ⟨hnamed, -⟩
      have hsome := hnamed event hlast
      rw [hnone] at hsome
      cases hsome
    · intro linked
      show state.settled.get? linked = _
      rw [List.reverse_append, List.reverse_singleton, List.singleton_append,
        List.find?_cons_of_neg (by simp [hnone]), h.last]
  · rename_i linked hlinked
    constructor
    · show state.violations ++ _ = [] ↔ _
      rw [List.append_eq_nil_iff, h.clean, pairwise_append_singleton, Option.toList_eq_nil_iff,
        Option.map_eq_none_iff, h.last]
      have hsilent : ∀ o : Option InvariantEvent,
          truthyText (o.map InvariantEvent.eventId) = none ↔ ∀ a, o = some a → a.eventId = [] := by
        intro o
        cases o with
        | none => exact iff_of_true rfl fun a ha => nomatch ha
        | some a =>
          by_cases hid : a.eventId = [] <;> simp [truthyText, hid]
      rw [hsilent]
      have hnamed : AllNamed (settlements ++ [event]) ↔ AllNamed settlements := by
        rw [AllNamed, List.forall_mem_append]
        refine and_iff_left fun e he => ?_
        rw [List.mem_singleton.mp he, hlinked]
        rfl
      rw [hnamed]
      constructor
      · rintro ⟨⟨hall, hpairwise⟩, hid⟩
        exact ⟨hall, hpairwise, (unnoticed_iff_last hlinked hpairwise).mpr hid⟩
      · rintro ⟨hall, hpairwise, hid⟩
        exact ⟨⟨hall, hpairwise⟩, (unnoticed_iff_last hlinked hpairwise).mp hid⟩
    · intro other
      show (state.settled.set linked event.eventId).get? other = _
      rw [JsMap.get?_set, List.reverse_append, List.reverse_singleton, List.singleton_append]
      split
      · rename_i heq
        rw [List.find?_cons_of_pos (by simp [hlinked, heq])]
        rfl
      · rename_i hne
        rw [List.find?_cons_of_neg (by simp [hlinked, hne]), h.last]

theorem settled_collectSettlements (events : List InvariantEvent) :
    Settled (events.filter isSettlement) (collectSettlements events) := by
  unfold collectSettlements
  generalize events.filter isSettlement = settlements
  induction settlements using List.reverseRecOn with
  | nil => exact ⟨iff_of_true rfl ⟨fun e he => absurd he List.not_mem_nil, .nil⟩, fun linked => rfl⟩
  | append_singleton settlements event ih =>
    rw [List.foldl_append]
    exact settled_addSettlement ih event

theorem settlement_holds_iff (events : List InvariantEvent) :
    (checkNoDuplicateSettlement events).holds = true ↔
      AllNamed (events.filter isSettlement) ∧
        (events.filter isSettlement).Pairwise Unnoticed := by
  rw [checkNoDuplicateSettlement, holds_checkResult, (settled_collectSettlements events).clean]

/-- Every settlement names an event, and no two of them the same one. -/
structure SettledOnce (events : List InvariantEvent) : Prop where
  named : AllNamed (events.filter isSettlement)
  once : ((events.filter isSettlement).map InvariantEvent.linkedEventId).Nodup

/-- The check of the balances is exact. That of the settlements is where a settlement names no
event, or no two name one event, or one with an id stands before another one of its event. -/
theorem crossChainChecks_iff (events : List InvariantEvent) :
    (((checkNoDuplicateSettlement events).holds = true ↔ SettledOnce events) ∧
        ((checkAssetConservation events).holds = true ↔ Conserved events)) ↔
      ¬ AllNamed (events.filter isSettlement) ∨
      ((events.filter isSettlement).map InvariantEvent.linkedEventId).Nodup ∨
      ∃ e o, [e, o].Sublist (events.filter isSettlement) ∧ e.linkedEventId = o.linkedEventId ∧
        e.eventId ≠ [] := by
  rw [and_iff_left (conservation_holds_iff events), settlement_holds_iff]
  generalize hlist : events.filter isSettlement = settlements
  have honce : SettledOnce events ↔
      AllNamed settlements ∧ (settlements.map InvariantEvent.linkedEventId).Nodup := by
    rw [← hlist]
    exact ⟨fun h => ⟨h.named, h.once⟩, fun h => ⟨h.1, h.2⟩⟩
  have hnoticed : ¬ settlements.Pairwise Unnoticed ↔ ∃ e o, [e, o].Sublist settlements ∧
      e.linkedEventId = o.linkedEventId ∧ e.eventId ≠ [] := by
    rw [List.pairwise_iff_forall_sublist]
    simp only [Unnoticed, not_forall, exists_prop]
  have hnodup : (settlements.map InvariantEvent.linkedEventId).Nodup →
      settlements.Pairwise Unnoticed := by
    intro h
    exact (List.pairwise_map.mp h).imp fun hne heq => absurd heq hne
  rw [honce, ← hnoticed]
  constructor
  · intro h
    by_cases hnamed : AllNamed settlements
    · by_cases hpairwise : settlements.Pairwise Unnoticed
      · exact .inr (.inl (h.mp ⟨hnamed, hpairwise⟩).2)
      · exact .inr (.inr hpairwise)
    · exact .inl hnamed
  · intro h
    constructor
    · rintro ⟨hnamed, hpairwise⟩
      rcases h with h | h | h
      · exact absurd hnamed h
      · exact ⟨hnamed, h⟩
      · exact absurd hpairwise h
    · rintro ⟨hnamed, h⟩
      exact ⟨hnamed, hnodup h⟩

end settlements

/-- A settlement of one event under an id. -/
def settlementOf (eventId : String) : InvariantEvent :=
  ⟨js "eip155:1", js eventId, js "settlement", js "10", none, js "USDC", .ofNat 1,
    js "2024-01-01T00:00:00.000Z", some (js "l2"), none⟩

/-- The check holds of two settlements of one event, the first without an id. -/
theorem unnoticedSettlement : ¬ ∀ events,
    (((checkNoDuplicateSettlement events).holds = true ↔ SettledOnce events) ∧
      ((checkAssetConservation events).holds = true ↔ Conserved events)) := by
  intro hclaim
  have honce := (hclaim [settlementOf "", settlementOf "s2"]).1.mp (by decide +kernel)
  have hnodup := honce.once
  revert hnodup
  decide +kernel

end Attestia.Verify
