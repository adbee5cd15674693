import Attestia.Lib.System
import Attestia.Witness.PolicyJson
import Attestia.Witness.RegistrumBridge

/-!
# Governance histories

A run of the operations of a store records one event for each operation that returns, and the
events rebuild the store. A store that is reset keeps the time of its last change.
-/

namespace Attestia.Witness

open Lib Effect

inductive GovernanceCall where
  | addSigner (address label : JsString) (weight : Option JsNumber) (publicKey : Option JsString)
      (timestamp : JsString)
  | removeSigner (address timestamp : JsString)
  | changeQuorum (newQuorum : JsNumber) (timestamp : JsString)
  | setSlaPolicy (policyId policyName : JsString) (policyVersion targetCount : JsNumber)
      (timestamp : JsString)

def GovernanceCall.timestamp : GovernanceCall → JsString
  | addSigner _ _ _ _ timestamp | removeSigner _ timestamp | changeQuorum _ timestamp
  | setSlaPolicy _ _ _ _ timestamp => timestamp

variable (platform : Platform)

def GovernanceCall.effect : GovernanceCall →
    Effect GovernanceStore GovernanceStore.Fault GovernanceChangeEvent
  | addSigner address label weight publicKey timestamp =>
    GovernanceStore.addSigner platform address label weight publicKey timestamp
  | removeSigner address timestamp => GovernanceStore.removeSigner address timestamp
  | changeQuorum newQuorum timestamp => GovernanceStore.changeQuorum newQuorum timestamp
  | setSlaPolicy policyId policyName policyVersion targetCount timestamp =>
    GovernanceStore.setSlaPolicy policyId policyName policyVersion targetCount timestamp

namespace GovernanceStore

/-- The checks that a call passes, and the change that it records. -/
inductive Allows (g : GovernanceStore) : GovernanceCall → GovernanceChange → Prop where
  | addSigner (address label : JsString) (weight : Option JsNumber) (publicKey : Option JsString)
      (timestamp : JsString) : address ∉ g.signers.keys →
      (weight.getD (.finite 1)).lt (.finite 1) = false → checkKey platform address publicKey = .ok () →
      Allows g (.addSigner address label weight publicKey timestamp)
        (.signerAdded address label (weight.getD (.finite 1)) publicKey)
  | removeSigner (address timestamp : JsString) (signer : SignerEntry) :
      g.signers.get? address = some signer →
      (g.totalWeight.sub signer.weight).lt g.quorum = false →
      Allows g (.removeSigner address timestamp) (.signerRemoved address)
  | changeQuorum (newQuorum : JsNumber) (timestamp : JsString) :
      newQuorum.lt (.finite 1) = false →
      (JsNumber.lt (.finite 0) g.totalWeight = true → g.totalWeight.lt newQuorum = false) →
      Allows g (.changeQuorum newQuorum timestamp) (.quorumChanged g.quorum newQuorum)
  | setSlaPolicy (policyId policyName : JsString) (policyVersion targetCount : JsNumber)
      (timestamp : JsString) : policyId ≠ [] → policyVersion.lt (.finite 1) = false →
      Allows g (.setSlaPolicy policyId policyName policyVersion targetCount timestamp)
        (.slaPolicySet policyId policyName policyVersion targetCount)

variable {platform}

theorem outcome_emit (change : GovernanceChange) (timestamp : JsString) (g : GovernanceStore) :
    (emit change timestamp).outcome g = (.ok ⟨change, timestamp⟩, g.applyEvent ⟨change, timestamp⟩) :=
  rfl

/-- A call throws and changes nothing, or applies the event that it returns. -/
theorem outcome_effect (g : GovernanceStore) (call : GovernanceCall) :
    (∃ fault, (call.effect platform).outcome g = (.error fault, g)) ∨
      ∃ change, g.Allows platform call change ∧ (call.effect platform).outcome g =
        (.ok ⟨change, call.timestamp⟩, g.applyEvent ⟨change, call.timestamp⟩) := by
  cases call with
  | addSigner address label weight publicKey timestamp =>
    rw [GovernanceCall.effect, addSigner, outcome_get_bind, outcome_throwIf_bind]
    split
    · exact .inl ⟨_, rfl⟩
    · rename_i hnew
      rw [outcome_throwIf_bind]
      split
      · exact .inl ⟨_, rfl⟩
      · rename_i hweight
        rw [outcome_check_bind]
        cases hkey : checkKey platform address publicKey with
        | error fault => exact .inl ⟨fault, rfl⟩
        | ok u =>
          rw [JsMap.has_eq_true] at hnew
          exact .inr ⟨_, .addSigner _ _ _ _ _ hnew (Bool.eq_false_of_not_eq_true hweight)
            hkey, outcome_emit _ _ _⟩
  | removeSigner address timestamp =>
    rw [GovernanceCall.effect, removeSigner, outcome_get_bind, outcome_check_bind, getSigner]
    cases hget : g.signers.get? address with
    | none => exact .inl ⟨_, rfl⟩
    | some signer =>
      dsimp only
      rw [outcome_throwIf_bind]
      split
      · exact .inl ⟨_, rfl⟩
      · rename_i hquorum
        exact .inr ⟨_, .removeSigner _ _ _ hget (Bool.eq_false_of_not_eq_true hquorum),
          outcome_emit _ _ _⟩
  | changeQuorum newQuorum timestamp =>
    rw [GovernanceCall.effect, changeQuorum, outcome_throwIf_bind]
    split
    · exact .inl ⟨_, rfl⟩
    · rename_i hlow
      rw [outcome_get_bind, outcome_throwIf_bind]
      split
      · exact .inl ⟨_, rfl⟩
      · rename_i hhigh
        refine .inr ⟨_, .changeQuorum _ _ (Bool.eq_false_of_not_eq_true hlow) ?_,
          outcome_emit _ _ _⟩
        intro hpos
        rw [hpos, Bool.true_and] at hhigh
        exact Bool.eq_false_of_not_eq_true hhigh
  | setSlaPolicy policyId policyName policyVersion targetCount timestamp =>
    rw [GovernanceCall.effect, setSlaPolicy, outcome_throwIf_bind]
    split
    · exact .inl ⟨_, rfl⟩
    · rename_i hid
      rw [outcome_throwIf_bind]
      split
      · exact .inl ⟨_, rfl⟩
      · rename_i hversion
        exact .inr ⟨_, .setSlaPolicy _ _ _ _ _ hid (Bool.eq_false_of_not_eq_true hversion),
          outcome_emit _ _ _⟩

theorem outcome_effect_eq_ok_iff {g g' : GovernanceStore} {call : GovernanceCall}
    {event : GovernanceChangeEvent} : (call.effect platform).outcome g = (.ok event, g') ↔
      g.Allows platform call event.change ∧ event.timestamp = call.timestamp ∧
        g' = g.applyEvent event := by
  constructor
  · intro h
    obtain ⟨fault, herror⟩ | ⟨change, hallows, hok⟩ := outcome_effect g call
    · cases herror.symm.trans h
    · cases hok.symm.trans h
      exact ⟨hallows, rfl, rfl⟩
  · rintro ⟨hallows, htimestamp, rfl⟩
    obtain ⟨change, timestamp⟩ := event
    obtain rfl : timestamp = call.timestamp := htimestamp
    cases hallows with
    | addSigner address label weight publicKey timestamp hnew hweight hkey =>
      rw [← JsMap.has_eq_true] at hnew
      rw [GovernanceCall.effect, addSigner, outcome_get_bind, outcome_throwIf_bind, if_neg hnew,
        outcome_throwIf_bind, if_neg (Bool.eq_false_iff.mp hweight), outcome_check_bind, hkey]
      rfl
    | removeSigner address timestamp signer hget hquorum =>
      rw [GovernanceCall.effect, removeSigner, outcome_get_bind, outcome_check_bind, getSigner, hget]
      dsimp only
      rw [outcome_throwIf_bind, if_neg (Bool.eq_false_iff.mp hquorum)]
      rfl
    | changeQuorum newQuorum timestamp hlow hhigh =>
      have hcheck : ¬ (JsNumber.lt (.finite 0) g.totalWeight && g.totalWeight.lt newQuorum) = true := by
        rw [Bool.and_eq_true, not_and, Bool.not_eq_true]
        exact hhigh
      rw [GovernanceCall.effect, changeQuorum, outcome_throwIf_bind,
        if_neg (Bool.eq_false_iff.mp hlow), outcome_get_bind, outcome_throwIf_bind, if_neg hcheck]
      rfl
    | setSlaPolicy policyId policyName policyVersion targetCount timestamp hid hversion =>
      rw [GovernanceCall.effect, setSlaPolicy, outcome_throwIf_bind, if_neg hid,
        outcome_throwIf_bind, if_neg (Bool.eq_false_iff.mp hversion)]
      rfl

/-! ## Runs -/

variable (platform)

/-- The store after a call. -/
def call (g : GovernanceStore) (c : GovernanceCall) : GovernanceStore :=
  ((c.effect platform).outcome g).2

/-- The store after the calls of a run. -/
def after (g : GovernanceStore) (calls : List GovernanceCall) : GovernanceStore :=
  calls.foldl (call platform) g

def applyEvents (g : GovernanceStore) (events : List GovernanceChangeEvent) : GovernanceStore :=
  events.foldl applyEvent g

variable {platform} {g : GovernanceStore}

theorem call_cases (g : GovernanceStore) (c : GovernanceCall) : g.call platform c = g ∨
    ∃ change timestamp, g.Allows platform c change ∧
      g.call platform c = g.applyEvent ⟨change, timestamp⟩ := by
  rcases @outcome_effect platform g c with ⟨fault, h⟩ | ⟨change, hallows, h⟩
  · exact .inl (congrArg Prod.snd h)
  · exact .inr ⟨change, c.timestamp, hallows, congrArg Prod.snd h⟩

theorem applyEvents_append (g : GovernanceStore) (as bs : List GovernanceChangeEvent) :
    g.applyEvents (as ++ bs) = (g.applyEvents as).applyEvents bs := List.foldl_append

theorem events_applyEvents (g : GovernanceStore) (events : List GovernanceChangeEvent) :
    (g.applyEvents events).events = g.events ++ events := by
  induction events generalizing g with
  | nil => exact (List.append_nil _).symm
  | cons e events ih =>
    change ((g.applyEvent e).applyEvents events).events = _
    rw [ih, applyEvent, List.append_assoc]
    rfl

theorem version_applyEvents (g : GovernanceStore) (events : List GovernanceChangeEvent) :
    (g.applyEvents events).version = g.version + events.length := by
  induction events generalizing g with
  | nil => rfl
  | cons e events ih =>
    change ((g.applyEvent e).applyEvents events).version = _
    rw [ih, List.length_cons]
    change g.version + 1 + events.length = _
    omega

theorem apply_lastUpdated (g : GovernanceStore) (t : JsString) (change : GovernanceChange)
    (timestamp : JsString) : { g with lastUpdated := t }.apply change timestamp =
      { g.apply change timestamp with lastUpdated := t } := by
  cases change <;> rfl

/-- An event overwrites the time of the last change. -/
theorem applyEvents_lastUpdated (g : GovernanceStore) (t : JsString)
    {events : List GovernanceChangeEvent} (h : events ≠ []) :
    { g with lastUpdated := t }.applyEvents events = g.applyEvents events := by
  obtain ⟨e, rest, rfl⟩ := List.exists_cons_of_ne_nil h
  have hfirst : { g with lastUpdated := t }.applyEvent e = g.applyEvent e := by
    rw [applyEvent, apply_lastUpdated]
    rfl
  change ({ g with lastUpdated := t }.applyEvent e).applyEvents rest = _
  rw [hfirst]
  rfl

theorem applyEvents_new (t u : JsString) {events : List GovernanceChangeEvent} (h : events ≠ []) :
    (new t).applyEvents events = (new u).applyEvents events :=
  applyEvents_lastUpdated (new u) t h

/-- The events of a run rebuild the store from a new one. -/
def Follows (createdAt : JsString) (g : GovernanceStore) : Prop :=
  g = (new createdAt).applyEvents g.events

theorem follows_applyEvents (createdAt : JsString) (events : List GovernanceChangeEvent) :
    Follows createdAt ((new createdAt).applyEvents events) := by
  rw [Follows, events_applyEvents]
  rfl

theorem follows_new (createdAt : JsString) : Follows createdAt (new createdAt) := rfl

theorem Follows.applyEvent {createdAt : JsString} (h : Follows createdAt g)
    (e : GovernanceChangeEvent) : Follows createdAt (g.applyEvent e) := by
  have hg : g.applyEvent e = (new createdAt).applyEvents (g.events ++ [e]) := by
    rw [applyEvents_append, ← h]
    rfl
  rw [hg]
  exact follows_applyEvents createdAt _

theorem Follows.call {createdAt : JsString} (h : Follows createdAt g) (c : GovernanceCall) :
    Follows createdAt (g.call platform c) := by
  rcases @call_cases platform g c with hcall | ⟨change, timestamp, -, hcall⟩
  · rw [hcall]
    exact h
  · rw [hcall]
    exact h.applyEvent _

theorem Follows.after {createdAt : JsString} (h : Follows createdAt g)
    (calls : List GovernanceCall) : Follows createdAt (g.after platform calls) := by
  induction calls generalizing g with
  | nil => exact h
  | cons c calls ih => exact ih (h.call c)

theorem Follows.version {createdAt : JsString} (h : Follows createdAt g) :
    g.version = g.events.length := by
  rw [h, version_applyEvents, ← h]
  exact Nat.zero_add _

theorem events_call_extends (g : GovernanceStore) (c : GovernanceCall) :
    g.events <+: (g.call platform c).events := by
  rcases @call_cases platform g c with hcall | ⟨change, timestamp, -, hcall⟩
  · rw [hcall]
  · rw [hcall]
    exact List.prefix_append _ _

/-- What has been recorded stays recorded. -/
theorem events_after_extends (g : GovernanceStore) (calls : List GovernanceCall) :
    g.events <+: (g.after platform calls).events := by
  induction calls generalizing g with
  | nil => exact List.prefix_rfl
  | cons c calls ih => exact (events_call_extends g c).trans (ih (g.call platform c))

theorem after_append (g : GovernanceStore) (as bs : List GovernanceCall) :
    g.after platform (as ++ bs) = (g.after platform as).after platform bs := List.foldl_append

theorem events_after_earlier (g : GovernanceStore) {earlier calls : List GovernanceCall}
    (h : earlier <+: calls) : (g.after platform earlier).events <+: (g.after platform calls).events := by
  obtain ⟨later, rfl⟩ := h
  rw [after_append]
  exact events_after_extends _ later

theorem version_call_le (g : GovernanceStore) (c : GovernanceCall) :
    (g.call platform c).version ≤ g.version + 1 := by
  rcases @call_cases platform g c with hcall | ⟨change, timestamp, -, hcall⟩
  · rw [hcall]
    exact Nat.le_succ _
  · rw [hcall]
    exact le_rfl

/-- A run passes through every version up to its last one. -/
theorem exists_version (g : GovernanceStore) {calls : List GovernanceCall} {k : ℕ}
    (hlow : g.version ≤ k) (hhigh : k ≤ (g.after platform calls).version) :
    ∃ earlier, earlier <+: calls ∧ (g.after platform earlier).version = k := by
  induction calls using List.reverseRecOn with
  | nil => exact ⟨[], List.prefix_rfl, le_antisymm hlow hhigh⟩
  | append_singleton calls c ih =>
    by_cases hle : k ≤ (g.after platform calls).version
    · obtain ⟨earlier, hearlierEvents, hversion⟩ := ih hle
      exact ⟨earlier, hearlierEvents.trans (List.prefix_append _ _), hversion⟩
    · refine ⟨calls ++ [c], List.prefix_rfl, ?_⟩
      rw [after_append] at hhigh ⊢
      have hstep := @version_call_le platform (g.after platform calls) c
      change k ≤ ((g.after platform calls).call platform c).version at hhigh
      change ((g.after platform calls).call platform c).version = k
      omega

/-! ## Replays -/

theorem replayFrom_eq (prior : GovernanceStore) (events : List GovernanceChangeEvent) :
    prior.replayFrom events = (new prior.lastUpdated).applyEvents events := rfl

/-- A history that is not empty rebuilds the store on whatever it is replayed. -/
theorem Follows.replayFrom {createdAt : JsString} (h : Follows createdAt g) (hevents : g.events ≠ [])
    (prior : GovernanceStore) : prior.replayFrom g.events = g := by
  rw [replayFrom_eq, applyEvents_new _ createdAt hevents, ← h]

/-- The policies, the SLA policies and the histories are the same. -/
structure SameGovernance (platform : Platform) (g g' : GovernanceStore) : Prop where
  policy : g.getCurrentPolicy platform = g'.getCurrentPolicy platform
  slaPolicy : g.activeSlaPolicy = g'.activeSlaPolicy
  events : g.getEventHistory = g'.getEventHistory

theorem exists_getCurrentPolicy_new (platform : Platform) (createdAt : JsString) :
    ∃ id, (new createdAt).getCurrentPolicy platform = .ok ⟨id, 0, [], .finite 1, createdAt⟩ := by
  have hjson : (canonicalPolicyShape platform 0 [] (.finite 1)).InJson :=
    ⟨⟨.ofNat 1, by simp [canonicalPolicyShape, JsonNumber.Number.ofNat]⟩, by
      simp [canonicalPolicyShape]⟩
  obtain ⟨json, hjson⟩ := platform.canonicalize_eq_ok _ hjson
  refine ⟨(Verify.sha256Hex json).take 16, ?_⟩
  rw [getCurrentPolicy]
  change platform.canonicalize (canonicalPolicyShape platform 0 [] (.finite 1)) >>= _ = _
  rw [hjson]
  rfl

theorem Follows.sameGovernance_replayFrom {createdAt : JsString} (h : Follows createdAt g)
    (prior : GovernanceStore) : SameGovernance platform (prior.replayFrom g.events) g ↔
      g.events ≠ [] ∨ prior.lastUpdated = createdAt := by
  by_cases hevents : g.events = []
  · have hg : g = new createdAt := by
      rw [h, hevents]
      rfl
    have hnew : ∀ t, (new t).applyEvents g.events = new t := by
      intro t
      rw [hevents]
      rfl
    rw [replayFrom_eq, hnew, hg]
    obtain ⟨id, hid⟩ := exists_getCurrentPolicy_new platform prior.lastUpdated
    obtain ⟨id', hid'⟩ := exists_getCurrentPolicy_new platform createdAt
    constructor
    · intro hsame
      have hpolicy := hsame.policy
      rw [hid, hid'] at hpolicy
      exact .inr (congrArg GovernancePolicy.updatedAt (Except.ok.inj hpolicy))
    · intro hcondition
      rw [hcondition.resolve_left (not_not.mpr rfl)]
      exact ⟨rfl, rfl, rfl⟩
  · rw [h.replayFrom hevents]
    exact ⟨fun _ => .inl hevents, fun _ => ⟨rfl, rfl, rfl⟩⟩

/-- The replay up to the version of an earlier store. -/
theorem Follows.replayToVersion {createdAt : JsString} (h : Follows createdAt g)
    (hpos : 1 ≤ g.version) {events : List GovernanceChangeEvent} (hearlierEvents : g.events <+: events)
    (now : JsString) : replayToVersion platform now events g.version =
      (g.getCurrentPolicy platform).mapError .canonical := by
  have hlength : g.version ≤ events.length := h.version ▸ hearlierEvents.length_le
  have hevents : g.events ≠ [] := by
    intro hnil
    rw [h.version, hnil] at hpos
    exact absurd hpos (by decide)
  have htake : events.take g.version = g.events := by
    rw [h.version]
    exact (List.prefix_iff_eq_take.mp hearlierEvents).symm
  rw [Witness.replayToVersion, throwIf, if_neg (by omega), throwIf, if_neg (by exact_mod_cast hlength.not_gt)]
  change (((new now).replayFrom (events.take (g.version : ℤ).toNat)).getCurrentPolicy
    platform).mapError _ = _
  rw [Int.toNat_natCast, htake, h.replayFrom hevents]

end GovernanceStore

open GovernanceStore

/-- What is recorded in a run is what rebuilds it, version by version, and a call that throws changes
nothing. A history is replayed faithfully where it is not empty or no time is left behind. -/
theorem governance_replay (platform : Platform) (createdAt : JsString)
    (calls : List GovernanceCall) :
    let g := (GovernanceStore.new createdAt).after platform calls
    g.version = g.getEventHistory.length ∧
    (∀ k : ℕ, 1 ≤ k → k ≤ g.version →
      (∃ earlier, earlier <+: calls ∧
        ((GovernanceStore.new createdAt).after platform earlier).version = k) ∧
      ∀ earlier, earlier <+: calls →
        ((GovernanceStore.new createdAt).after platform earlier).version = k →
        ∀ now, replayToVersion platform now g.getEventHistory k =
          (((GovernanceStore.new createdAt).after platform earlier).getCurrentPolicy
            platform).mapError .canonical) ∧
    (∀ prior : GovernanceStore, SameGovernance platform (prior.replayFrom g.getEventHistory) g ↔
      g.getEventHistory ≠ [] ∨ prior.lastUpdated = createdAt) ∧
    ∀ (call : GovernanceCall) (fault : Fault), ((call.effect platform).outcome g).1 = .error fault →
      ((call.effect platform).outcome g).2 = g := by
  intro g
  have hfollows : g.Follows createdAt := (follows_new createdAt).after calls
  refine ⟨hfollows.version, ?_, hfollows.sameGovernance_replayFrom, ?_⟩
  · intro k hlow hhigh
    refine ⟨exists_version _ (Nat.zero_le k) hhigh, ?_⟩
    rintro earlier hearlierEvents rfl now
    have hearlier : ((GovernanceStore.new createdAt).after platform earlier).Follows createdAt :=
      (follows_new createdAt).after earlier
    exact hearlier.replayToVersion hlow (events_after_earlier _ hearlierEvents) now
  · intro call fault hfault
    rcases @outcome_effect platform g call with ⟨_, h⟩ | ⟨change, -, h⟩
    · rw [h]
    · rw [h] at hfault
      cases hfault

/-! ### A reset that keeps the time of the last change -/

def oneSigner : GovernanceStore :=
  (GovernanceStore.new (js "1")).after jcsPlatform [.addSigner (js "a") (js "A") none none (js "2")]

theorem not_sameGovernance_oneSigner : oneSigner.signerCount = 1 ∧
    ¬ SameGovernance jcsPlatform
      (oneSigner.replayFrom ((GovernanceStore.new (js "1")).after jcsPlatform []).getEventHistory)
      ((GovernanceStore.new (js "1")).after jcsPlatform []) := by
  have hcount : oneSigner.signerCount = 1 := by decide +kernel
  have htime : oneSigner.lastUpdated ≠ js "1" := by decide +kernel
  refine ⟨hcount, ?_⟩
  rw [GovernanceStore.getEventHistory, ((follows_new (js "1")).after []).sameGovernance_replayFrom]
  rintro (hevents | heq)
  · exact hevents rfl
  · exact htime heq

end Attestia.Witness
