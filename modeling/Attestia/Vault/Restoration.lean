import Attestia.Vault.Steps

/-!
# Restored vaults

`restoreFromSnapshot` takes the committed amounts over and computes what is available from them. A
vault gives the same snapshot again where that text is the one it holds, which fails for the zero
of an envelope that nothing has been allocated to.
-/

namespace Attestia.Vault

open Lib JsonNumber Ledger

namespace BudgetEngine

/-! ## Restoring envelopes -/

/-- What `restoreEnvelope` makes of an envelope in the unit of its engine. -/
def Restores (c : JsString) (d : Number) (e e' : Envelope) : Prop :=
  ∃ x y, Amounts d e x y ∧ 0 ≤ y ∧ y ≤ x ∧
    e' = { e with currency := c, decimals := d, available := formatAmount (x - y) d }

theorem Restores.id_eq {c : JsString} {d : Number} {e e' : Envelope} (h : Restores c d e e') :
    e'.id = e.id := by
  obtain ⟨x, y, -, -, -, rfl⟩ := h
  rfl

theorem Restores.kept {c : JsString} {d : Number} {e e' : Envelope} (h : Restores c d e e') :
    Kept c d e' := by
  obtain ⟨x, y, hamounts, hnonneg, hcovered, rfl⟩ := h
  exact ⟨rfl, rfl, .inr ⟨x, y, ⟨hamounts.allocated, hamounts.spent⟩, hnonneg, hcovered, rfl⟩⟩

variable {b b' : BudgetEngine}

theorem restoreEnvelope_eq_ok {e : Envelope} {r : BudgetEngine × Envelope} :
    b.restoreEnvelope e = .ok r ↔ e.id ∉ b.envelopes.keys ∧
      ∃ e', Restores b.currency b.decimals e e' ∧ r = (b.setEnvelope e.id e', e') := by
  constructor
  · intro h
    obtain ⟨hnew, h⟩ := bind_unit_eq_ok.mp h
    rw [throwIf_eq_ok, JsMap.has_eq_true] at hnew
    obtain ⟨_, hallocated, h⟩ := bind_eq_ok.mp h
    obtain ⟨-, h⟩ := bind_unit_eq_ok.mp h
    obtain ⟨_, hspent, h⟩ := bind_eq_ok.mp h
    obtain ⟨hnonneg, h⟩ := bind_unit_eq_ok.mp h
    obtain ⟨_, horder, h⟩ := bind_eq_ok.mp h
    obtain ⟨hcovered, h⟩ := bind_unit_eq_ok.mp h
    obtain ⟨_, havailable, h⟩ := bind_eq_ok.mp h
    refine ⟨hnew, _, ?_, (Except.ok.inj h).symm⟩
    obtain ⟨-, -, y, x, hy, hx, rfl⟩ := compareMoney_eq_ok.mp (mapError_eq_ok.mp horder)
    obtain ⟨x', y', hx', hy', rfl⟩ := subtract_eq_ok.mp havailable
    obtain rfl := Except.ok.inj (hx.symm.trans hx')
    obtain rfl := Except.ok.inj (hy.symm.trans hy')
    obtain ⟨n, hn, rfl⟩ := isNegative_eq_ok.mp (mapError_eq_ok.mp hspent)
    obtain rfl := Except.ok.inj (hy.symm.trans hn)
    rw [throwIf_eq_ok, compare_gt_iff_gt, not_lt] at hcovered
    rw [throwIf_eq_ok, decide_eq_true_eq, not_lt] at hnonneg
    exact ⟨x, y, ⟨hx, hy⟩, hnonneg, hcovered, rfl⟩
  · rintro ⟨hnew, _, ⟨x, y, hamounts, hnonneg, hcovered, rfl⟩, rfl⟩
    have hallocated : isNegative (b.unit e.allocated) = .ok (decide (x < 0)) :=
      isNegative_eq_ok.mpr ⟨x, hamounts.allocated, rfl⟩
    have hspent : isNegative (b.unit e.spent) = .ok (decide (y < 0)) :=
      isNegative_eq_ok.mpr ⟨y, hamounts.spent, rfl⟩
    have horder : compareMoney (b.unit e.spent) (b.unit e.allocated) = .ok (compare y x) :=
      compareMoney_eq_ok.mpr ⟨rfl, rfl, y, x, hamounts.spent, hamounts.allocated, rfl⟩
    have havailable : b.subtract e.allocated e.spent = .ok (formatAmount (x - y) b.decimals) :=
      subtract_eq_ok.mpr ⟨x, y, hamounts.allocated, hamounts.spent, rfl⟩
    refine bind_unit_eq_ok.mpr ⟨throwIf_eq_ok.mpr (by rwa [JsMap.has_eq_true]), ?_⟩
    refine bind_eq_ok.mpr ⟨_, mapError_eq_ok.mpr hallocated, ?_⟩
    refine bind_unit_eq_ok.mpr ⟨throwIf_eq_ok.mpr (by simpa using hnonneg.trans hcovered), ?_⟩
    refine bind_eq_ok.mpr ⟨_, mapError_eq_ok.mpr hspent, ?_⟩
    refine bind_unit_eq_ok.mpr ⟨throwIf_eq_ok.mpr (by simpa using hnonneg), ?_⟩
    refine bind_eq_ok.mpr ⟨_, mapError_eq_ok.mpr horder, ?_⟩
    refine bind_unit_eq_ok.mpr ⟨throwIf_eq_ok.mpr (by
      rwa [compare_gt_iff_gt, not_lt]), ?_⟩
    exact bind_eq_ok.mpr ⟨_, havailable, rfl⟩

def entryOf (e : Envelope) : JsString × Envelope := (e.id, e)

theorem restoreEnvelopes_eq_ok {l : List Envelope} : b.restoreEnvelopes l = .ok b' ↔
    ∃ l', List.Forall₂ (Restores b.currency b.decimals) l l' ∧ (l.map Envelope.id).Nodup ∧
      (∀ e ∈ l, e.id ∉ b.envelopes.keys) ∧
      b' = { b with envelopes := b.envelopes.setAll (l'.map entryOf) } := by
  induction l generalizing b with
  | nil =>
    simp only [List.forall₂_nil_left_iff, exists_eq_left]
    exact ⟨fun h => ⟨List.nodup_nil, fun e he => absurd he List.not_mem_nil,
      (Except.ok.inj h).symm⟩, fun h => congrArg Except.ok h.2.2.symm⟩
  | cons e l ih =>
    rw [restoreEnvelopes, bind_eq_ok]
    simp only [restoreEnvelope_eq_ok, ih, List.forall₂_cons_left_iff, List.map_cons,
      List.nodup_cons, List.forall_mem_cons]
    constructor
    · rintro ⟨_, ⟨hnew, e', hrestores, rfl⟩, l', hl', hnodup, hnews, rfl⟩
      have hnews : ∀ a ∈ l, a.id ≠ e.id ∧ a.id ∉ b.envelopes.keys := by
        intro a ha
        have hkey := hnews a ha
        rw [setEnvelope, JsMap.mem_keys_set, not_or] at hkey
        exact hkey
      refine ⟨e' :: l', ⟨e', l', hrestores, hl', rfl⟩, ⟨?_, hnodup⟩, ⟨hnew, ?_⟩, ?_⟩
      · intro hmem
        obtain ⟨a, ha, heq⟩ := List.mem_map.mp hmem
        exact (hnews a ha).1 heq
      · exact fun a ha => (hnews a ha).2
      · rw [List.map_cons, entryOf, hrestores.id_eq]
        rfl
    · rintro ⟨_, ⟨e', l', hrestores, hl', rfl⟩, ⟨hfirst, hnodup⟩, ⟨hnew, hnews⟩, rfl⟩
      refine ⟨(b.setEnvelope e.id e', e'), ⟨hnew, e', hrestores, rfl⟩, l', hl', hnodup, ?_, ?_⟩
      · intro a ha
        rw [setEnvelope, JsMap.mem_keys_set, not_or]
        exact ⟨fun heq => hfirst (heq ▸ List.mem_map_of_mem ha), hnews a ha⟩
      · rw [List.map_cons, entryOf, hrestores.id_eq]
        rfl

theorem map_id_of_restores {c : JsString} {d : Number} {l l' : List Envelope}
    (h : List.Forall₂ (Restores c d) l l') : l'.map Envelope.id = l.map Envelope.id := by
  induction h with
  | nil => rfl
  | cons hrestores _ ih => rw [List.map_cons, List.map_cons, ih, hrestores.id_eq]

/-- The envelopes of an engine that has been restored, in their order. -/
theorem restoreEnvelopes_new {ownerId c : JsString} {d : Number} {l : List Envelope}
    (h : (new ownerId c d).restoreEnvelopes l = .ok b') :
    ∃ l', List.Forall₂ (Restores c d) l l' ∧ b'.envelopes.entries = l'.map entryOf ∧
      SameUnit (new ownerId c d) b' := by
  obtain ⟨l', hl', hnodup, -, rfl⟩ := restoreEnvelopes_eq_ok.mp h
  refine ⟨l', hl', ?_, rfl⟩
  apply JsMap.entries_setAll
  · rw [← map_id_of_restores hl'] at hnodup
    rw [List.map_map]
    exact hnodup
  · exact fun _ _ => List.not_mem_nil

theorem kept_of_restores {c : JsString} {d : Number} {l l' : List Envelope}
    (h : List.Forall₂ (Restores c d) l l') : ∀ e ∈ l', Kept c d e := by
  induction h with
  | nil => exact fun e he => absurd he List.not_mem_nil
  | cons hrestores _ ih => exact List.forall_mem_cons.mpr ⟨hrestores.kept, ih⟩

theorem keeps_restoreEnvelopes {ownerId c : JsString} {d : Number} {l : List Envelope}
    (h : (new ownerId c d).restoreEnvelopes l = .ok b') : b'.Keeps := by
  obtain ⟨l', hl', hentries, hunit⟩ := restoreEnvelopes_new h
  intro id e he
  rw [JsMap.get?_eq_some, hentries] at he
  obtain ⟨e', he', heq⟩ := List.mem_map.mp he
  obtain ⟨rfl, rfl⟩ := Prod.mk.inj heq
  rw [hunit]
  exact ⟨rfl, kept_of_restores hl' e' he'⟩

end BudgetEngine

/-! ## Restoring a vault -/

open BudgetEngine

theorem restoreFromSnapshot_eq_ok {snapshot : VaultSnapshot} {v' : Vault} :
    restoreFromSnapshot snapshot = .ok v' ↔
      snapshot.version = CURRENT_VAULT_SNAPSHOT_VERSION ∧ ∃ budget,
        (BudgetEngine.new snapshot.config.ownerId snapshot.config.defaultCurrency
          snapshot.config.defaultDecimals).restoreEnvelopes snapshot.envelopes = .ok budget ∧
        JsMap.importAll VaultIntent.id IntentManager.duplicateId .empty [] snapshot.intents =
          (v'.intents.intents, .ok ()) ∧
        v' = ⟨snapshot.config, budget, v'.intents.intents⟩ := by
  rw [restoreFromSnapshot, bind_unit_eq_ok, throwIf_eq_ok, not_not]
  apply and_congr_right
  intro _
  dsimp only
  rw [bind_eq_ok]
  apply exists_congr
  intro budget
  rw [mapError_eq_ok]
  apply and_congr_right
  intro _
  have hempty : (Vault.new snapshot.config).intents.intents = .empty := rfl
  rw [IntentManager.importIntents, hempty, if_neg JsMap.not_entries_empty_ne, bind_unit_eq_ok,
    mapError_eq_ok]
  constructor
  · rintro ⟨hok, hv⟩
    cases hv
    exact ⟨Prod.ext rfl hok, rfl⟩
  · rintro ⟨himport, hv⟩
    rw [himport, hv]
    exact ⟨rfl, rfl⟩

/-! ## What a vault keeps -/

/-- The records of a vault stand under their ids, and the envelopes are in its unit. -/
structure Orderly (v : Vault) : Prop where
  keeps : v.intents.budget.Keeps
  unit : SameUnit (.new v.config.ownerId v.config.defaultCurrency v.config.defaultDecimals)
    v.intents.budget
  intents (id : JsString) (i : VaultIntent) (h : v.intents.intents.get? id = some i) : i.id = id

theorem Orderly.currency_eq {v : Vault} (h : v.Orderly) :
    v.intents.budget.currency = v.config.defaultCurrency :=
  congrArg BudgetEngine.currency h.unit

theorem Orderly.decimals_eq {v : Vault} (h : v.Orderly) :
    v.intents.budget.decimals = v.config.defaultDecimals :=
  congrArg BudgetEngine.decimals h.unit

theorem orderly_new (config : VaultConfig) : Orderly (.new config) :=
  ⟨keeps_new _ _ _, rfl, fun _ _ h => by cases h⟩

theorem Orderly.withBudget {v : Vault} (h : v.Orderly) {b : BudgetEngine}
    (hb : b.Keeps ∧ v.intents.budget.SameUnit b) : (v.withBudget b).Orderly where
  keeps := hb.1
  unit := by
    show b = _
    rw [hb.2, h.unit]
    rfl
  intents := h.intents

theorem Orderly.withIntent {v : Vault} (h : v.Orderly) {k : JsString} {i : VaultIntent}
    (hi : i.id = k) : (v.withIntent k i).Orderly where
  keeps := h.keeps
  unit := h.unit
  intents := JsMap.forall_set h.intents hi

theorem Moved.id_eq {i i' : VaultIntent} (h : Moved i i') : i'.id = i.id := by
  cases h <;> rfl

theorem orderly_restored {snapshot : VaultSnapshot} {v' : Vault}
    (h : restoreFromSnapshot snapshot = .ok v') : Orderly v' := by
  obtain ⟨-, budget, hbudget, himport, hv'⟩ := restoreFromSnapshot_eq_ok.mp h
  obtain ⟨-, -, -, hunit⟩ := restoreEnvelopes_new hbudget
  rw [hv']
  refine ⟨keeps_restoreEnvelopes hbudget, hunit, ?_⟩
  intro id i hi
  obtain ⟨hnodup, -⟩ := JsMap.importAll_eq_ok (congrArg Prod.snd himport)
  rw [JsMap.importAll_of_nodup hnodup fun _ _ => List.not_mem_nil] at himport
  have hentries := JsMap.entries_setAll (m := .empty)
    (l := snapshot.intents.map fun i => (i.id, i)) (by rw [List.map_map]; exact hnodup)
    fun _ _ => List.not_mem_nil
  rw [(Prod.mk.inj himport).1] at hentries
  rw [JsMap.get?_eq_some, hentries] at hi
  obtain ⟨i', -, heq⟩ := List.mem_map.mp hi
  obtain ⟨rfl, rfl⟩ := Prod.mk.inj heq
  rfl

theorem Orderly.step {v v' : Vault} {c : VaultCall} (h : v.Orderly) (hstep : v.Step c v') :
    v'.Orderly := by
  cases hstep with
  | same => exact h
  | created hr => exact h.withBudget (h.keeps.createEnvelope hr)
  | allocated hr => exact h.withBudget (h.keeps.allocate hr)
  | deallocated hr => exact h.withBudget (h.keeps.deallocate hr)
  | spent hr => exact h.withBudget (h.keeps.spend hr)
  | reversed hr => exact h.withBudget (h.keeps.reverseSpend hr)
  | declared hnew => exact h.withIntent rfl
  | moved hget hmoved => exact h.withIntent (hmoved.id_eq.trans (h.intents _ _ hget))
  | charged hget hstatus hdraws hr =>
    have hid := h.intents _ _ hget
    exact (h.withBudget (h.keeps.spend hr)).withIntent hid
  | returned hget hstatus hdraws hr =>
    have hid := h.intents _ _ hget
    exact (h.withBudget (h.keeps.reverseSpend hr)).withIntent hid
  | restored hr => exact orderly_restored hr

theorem orderly_of_reachable {v : Vault} (h : vaultSystem.Reachable v) : v.Orderly := by
  apply h.invariant
  · rintro v ⟨config, rfl⟩
    exact orderly_new config
  · intro v c v' hv hnext
    rw [← Option.some.inj hnext]
    exact hv.step (v.step_call c)

/-! ## Fixed points -/

/-- An envelope of a vault is restored as it is where its amounts have been computed. -/
theorem restores_self_iff {c : JsString} {d : Number} {e : Envelope} (h : Kept c d e) :
    Restores c d e e ↔ ∃ x y, Committed d e x y := by
  constructor
  · rintro ⟨x, y, hamounts, hnonneg, hcovered, he⟩
    exact ⟨x, y, hamounts, hnonneg, hcovered, by rw [he]⟩
  · rintro ⟨x, y, hcommitted⟩
    refine ⟨x, y, hcommitted.toAmounts, hcommitted.nonneg, hcommitted.covered, ?_⟩
    rw [← hcommitted.available, ← h.currency, ← h.decimals]

/-- The amounts of an envelope have not been computed where it holds the zero of a new envelope and
the unit has decimals. -/
theorem exists_committed_iff {c : JsString} {d : Number} {e : Envelope} (h : Kept c d e) :
    (∃ x y, Committed d e x y) ↔ d.val = 0 ∨ e.available ≠ js "0" := by
  constructor
  · rintro ⟨x, y, hcommitted⟩
    by_cases hzero : e.available = js "0"
    · rw [hcommitted.available] at hzero
      exact .inl (val_eq_zero_of_formatAmount hzero)
    · exact .inr hzero
  · intro hcases
    rcases h.amounts with hfresh | hcommitted
    · have hd : d.val = 0 := hcases.resolve_right (not_not.mpr hfresh.available)
      have hparse : parseAmount (js "0") d = .ok 0 := by
        have hofNat : d = .ofNat 0 := Number.ext (by rw [hd]; rfl)
        rw [← formatAmount_zero hd, hofNat]
        exact parseAmount_formatAmount 0 0
      refine ⟨0, 0, ⟨?_, ?_⟩, le_rfl, le_rfl, ?_⟩
      · rw [hfresh.allocated, hparse]
      · rw [hfresh.spent, hparse]
      · rw [hfresh.available, sub_zero, formatAmount_zero hd]
    · exact hcommitted

theorem Orderly.restores_fixed_iff {v : Vault} (h : v.Orderly) (savedAt : JsString) :
    (∃ v', restoreFromSnapshot (v.snapshot savedAt) = .ok v' ∧
        v'.snapshot savedAt = v.snapshot savedAt) ↔
      ∀ e ∈ v.intents.budget.listEnvelopes,
        Restores v.config.defaultCurrency v.config.defaultDecimals e e := by
  constructor
  · rintro ⟨v', hrestore, hsnapshot⟩
    obtain ⟨-, budget, hbudget, -, hv'⟩ := restoreFromSnapshot_eq_ok.mp hrestore
    obtain ⟨l', hl', hentries, -⟩ := restoreEnvelopes_new hbudget
    have hlist : v'.intents.budget.listEnvelopes = v.intents.budget.listEnvelopes :=
      congrArg VaultSnapshot.envelopes hsnapshot
    have hown : v'.intents.budget.listEnvelopes = l' := by
      rw [hv', listEnvelopes, JsMap.values, hentries, List.map_map]
      exact List.map_id l'
    rw [← hown, hlist] at hl'
    exact List.forall₂_same.mp hl'
  · intro hsame
    have hnodup : (v.intents.budget.listEnvelopes.map Envelope.id).Nodup :=
      JsMap.nodup_map_values (g := fun k => k) fun id e he => (h.keeps id e he).1
    have hbudget := (restoreEnvelopes_eq_ok (b := .new v.config.ownerId v.config.defaultCurrency
      v.config.defaultDecimals)).mpr ⟨v.intents.budget.listEnvelopes, List.forall₂_same.mpr hsame,
        hnodup, fun _ _ => List.not_mem_nil, rfl⟩
    have himport : JsMap.importAll VaultIntent.id IntentManager.duplicateId .empty []
        (v.snapshot savedAt).intents = (v.intents.intents, .ok ()) :=
      JsMap.importAll_values h.intents
    have hengine : { BudgetEngine.new v.config.ownerId v.config.defaultCurrency
        v.config.defaultDecimals with envelopes := v.intents.budget.envelopes } =
          v.intents.budget := h.unit.symm
    have hall : (JsMap.empty : JsMap JsString Envelope).setAll
        (v.intents.budget.listEnvelopes.map entryOf) = v.intents.budget.envelopes :=
      JsMap.setAll_values fun id e he => (h.keeps id e he).1
    rw [BudgetEngine.new] at hbudget hengine
    rw [hall, hengine] at hbudget
    exact ⟨v, restoreFromSnapshot_eq_ok.mpr ⟨rfl, _, hbudget, himport, rfl⟩, rfl⟩

/-- Restoring the snapshot of a vault gives a vault with the same snapshot, the time it is saved at
aside, exactly where the unit has no decimals or no envelope holds the zero of a new envelope. -/
theorem snapshot_fixed_iff (v : Vault) (hv : vaultSystem.Reachable v) (savedAt : JsString) :
    (∃ v', restoreFromSnapshot (v.snapshot savedAt) = .ok v' ∧
        v'.snapshot savedAt = v.snapshot savedAt) ↔
      v.config.defaultDecimals.val = 0 ∨
        ∀ e ∈ v.intents.budget.listEnvelopes, e.available ≠ js "0" := by
  have h := orderly_of_reachable hv
  have heach : ∀ e ∈ v.intents.budget.listEnvelopes,
      (Restores v.config.defaultCurrency v.config.defaultDecimals e e ↔
        v.config.defaultDecimals.val = 0 ∨ e.available ≠ js "0") := by
    intro e he
    obtain ⟨id, hid⟩ := JsMap.mem_values.mp he
    have hkept := (h.keeps id e hid).2
    rw [h.currency_eq, h.decimals_eq] at hkept
    rw [restores_self_iff hkept]
    exact exists_committed_iff hkept
  rw [h.restores_fixed_iff, forall₂_congr heach]
  by_cases hzero : v.config.defaultDecimals.val = 0
  · exact ⟨fun _ => .inl hzero, fun _ e _ => .inl hzero⟩
  · simp only [hzero, false_or]

/-- A vault with cents, and its calls that create an envelope and put one dollar into it. -/
def cents : VaultConfig := ⟨js "alice", js "USD", .ofNat 2⟩

def creation : VaultCall := .createEnvelope (js "e1") (js "rent") none (js "2026-01-01")

def funding : VaultCall := .allocate (js "e1") ⟨js "1.00", js "USD", .ofNat 2⟩

theorem snapshot_fixed_iff_funded : ∃ v',
    restoreFromSnapshot ((((Vault.new cents).call creation).call funding).snapshot (js "now")) =
        .ok v' ∧
      v'.snapshot (js "now") = (((Vault.new cents).call creation).call funding).snapshot (js "now") := by
  have hinit : vaultSystem.Reachable (Vault.new cents) := .init ⟨cents, rfl⟩
  have hcreated : vaultSystem.Reachable ((Vault.new cents).call creation) := hinit.next rfl
  apply (snapshot_fixed_iff _ (hcreated.next rfl) _).mpr
  right
  have hamounts : (((Vault.new cents).call creation).call
      funding).intents.budget.listEnvelopes.all (fun e => e.available != js "0") = true := by
    decide +kernel
  intro e he
  exact bne_iff_ne.mp (List.all_eq_true.mp hamounts e he)

/-- An envelope that nothing has been allocated to comes back with the text of zero cents. -/
theorem snapshot_never_funded : ¬ ∀ v : Vault, vaultSystem.Reachable v → ∀ savedAt : JsString,
    ∃ v', restoreFromSnapshot (v.snapshot savedAt) = .ok v' ∧
      v'.snapshot savedAt = v.snapshot savedAt := by
  intro h
  have hinit : vaultSystem.Reachable (Vault.new cents) := .init ⟨cents, rfl⟩
  obtain ⟨v', hrestore, hsnapshot⟩ := h _ (hinit.next (e := creation) rfl) (js "now")
  have hbefore : ((Vault.new cents).call creation).intents.budget.listEnvelopes.map
      Envelope.available = [js "0"] := by
    decide +kernel
  have hafter : (restoreFromSnapshot (((Vault.new cents).call creation).snapshot
      (js "now"))).toOption.map (fun v => v.intents.budget.listEnvelopes.map Envelope.available) =
        some [js "0.00"] := by
    decide +kernel
  rw [hrestore] at hafter
  have hsame : v'.intents.budget.listEnvelopes =
      ((Vault.new cents).call creation).intents.budget.listEnvelopes :=
    congrArg VaultSnapshot.envelopes hsnapshot
  have htexts : v'.intents.budget.listEnvelopes.map Envelope.available = [js "0.00"] :=
    Option.some.inj hafter
  rw [hsame, hbefore] at htexts
  exact absurd htexts (by decide)

end Attestia.Vault
