import Attestia.Ledger.Atomic
import Attestia.Ledger.TrialBalance

/-!
# Snapshots of the ledger

A snapshot holds the accounts and the entries of a ledger. `fromSnapshot` replays the entries
in groups of one correlation id each, so that a ledger comes back with the transactions that
it has exactly when no two of them share a correlation id.
-/

namespace Attestia.Ledger

open Lib JsonNumber

structure LedgerSnapshot where
  version : Number
  accounts : List LedgerAccount
  entries : List LedgerEntry
  createdAt : JsString

def SUPPORTED_SNAPSHOT_VERSION : Number := .ofNat 1

def snapshot (ledger : Ledger) (createdAt : JsString) : LedgerSnapshot where
  version := SUPPORTED_SNAPSHOT_VERSION
  accounts := ledger.accounts.values
  entries := ledger.entries
  createdAt := createdAt

def unsupportedVersion (version : Number) : LedgerError :=
  let given := JsonValue.numberString version
  let supported := JsonValue.numberString SUPPORTED_SNAPSHOT_VERSION
  ⟨.unsupportedSnapshotVersion, js "Cannot restore ledger snapshot version " ++ given ++
    js ": this build supports snapshot version " ++ supported ++
    js " only. Restoring a snapshot from a different schema would risk silently misreading " ++
    js "entries. Use a build that supports version " ++ given ++
    js ", or run an explicit migration to version " ++ supported ++ js " first."⟩

def restoreAccounts (accounts : List LedgerAccount) : Except LedgerError AccountRegistry :=
  accounts.foldlM (fun registry account =>
    (registry.register account.ref account.createdAt).map Prod.fst) .empty

/-- The entries of a snapshot by their correlation ids. -/
def groups (entries : List LedgerEntry) : JsMap JsString (List LedgerEntry) :=
  JsMap.groupBy LedgerEntry.correlationId entries

def replayGroup (ledger : Ledger) (entries : List LedgerEntry) : Except LedgerError Ledger :=
  (ledger.append entries none).map Prod.fst

def fromSnapshot (snapshot : LedgerSnapshot) : Except LedgerError Ledger := do
  if snapshot.version ≠ SUPPORTED_SNAPSHOT_VERSION then
    throw (unsupportedVersion snapshot.version)
  let accounts ← restoreAccounts snapshot.accounts
  (groups snapshot.entries).values.foldlM replayGroup { new with accounts }

/-! ## Accounts -/

theorem foldlM_register {accounts : AccountRegistry} {l : List (JsString × LedgerAccount)}
    (hnodup : (l.map Prod.fst).Nodup) (hnew : ∀ e ∈ l, e.1 ∉ accounts.keys)
    (hkeyed : ∀ e ∈ l, e.2.ref.id = e.1) :
    (l.map Prod.snd).foldlM (fun (registry : AccountRegistry) account =>
      (registry.register account.ref account.createdAt).map Prod.fst) accounts =
        .ok (accounts.setAll l) := by
  induction l generalizing accounts with
  | nil => rfl
  | cons e l ih =>
    rw [List.map_cons, List.nodup_cons] at hnodup
    have hregister : accounts.register e.2.ref e.2.createdAt =
        .ok (accounts.set e.1 e.2, e.2) := by
      have hhas : accounts.has e.1 = false := by
        rw [Bool.eq_false_iff, ne_eq, JsMap.has_eq_true]
        exact hnew e (.head _)
      rw [AccountRegistry.register, hkeyed e (.head _), hhas]
      rfl
    have hnew' : ∀ a ∈ l, a.1 ∉ (accounts.set e.1 e.2).keys := by
      intro a ha hmem
      rcases JsMap.mem_keys_set.mp hmem with heq | hmem
      · exact hnodup.1 (heq ▸ List.mem_map_of_mem ha)
      · exact hnew a (.tail _ ha) hmem
    rw [List.map_cons, List.foldlM_cons, hregister]
    exact ih hnodup.2 hnew' fun a ha => hkeyed a (.tail _ ha)

/-- The accounts of a registry, registered in their order. -/
theorem restoreAccounts_values {accounts : AccountRegistry}
    (hkeyed : ∀ id account, accounts.get? id = some account → account.ref.id = id) :
    restoreAccounts accounts.values = .ok accounts := by
  have hall : JsMap.empty.setAll accounts.entries = accounts := by
    apply JsMap.ext
    rw [JsMap.entries_setAll accounts.nodup fun _ _ => List.not_mem_nil]
    rfl
  have hregister := @foldlM_register .empty _ accounts.nodup (fun _ _ => List.not_mem_nil)
    fun e he => hkeyed e.1 e.2 (JsMap.get?_eq_some.mpr he)
  rw [hall] at hregister
  exact hregister

/-! ## Replaying the groups -/

/-- The transaction that a group is replayed as. -/
def replayed (group : JsString × List LedgerEntry) : LedgerTransaction :=
  ⟨group.1, group.2, (group.2.head?.map LedgerEntry.timestamp).getD [], none⟩

/-- The ledger that the groups of a snapshot are replayed to. -/
def regrouped (ledger : Ledger) : Ledger :=
  let entries := (groups ledger.entries).values.flatten
  ⟨ledger.accounts, entries, entries.map LedgerEntry.id,
    (groups ledger.entries).entries.map replayed⟩

theorem mem_of_mem_group {ledger : Ledger} {k : JsString} {group : List LedgerEntry}
    (hgroup : (k, group) ∈ (groups ledger.entries).entries) {e : LedgerEntry} (he : e ∈ group) :
    e ∈ ledger.entries ∧ e.correlationId = k := by
  rw [((JsMap.mem_entries_groupBy _).mp hgroup).1, List.mem_filter, decide_eq_true_eq] at he
  exact he

section regroup

variable {ledger : Ledger} (h : Recorded ledger)

include h in
/-- The entries of a correlation id are the transactions of that id. -/
theorem Recorded.filter_correlationId (k : JsString) :
    (ledger.entries.filter fun e => e.correlationId = k) =
      (ledger.transactions.filter fun t => t.correlationId = k).flatMap
        LedgerTransaction.entries := by
  rw [h.sound.entries]
  have hbatches := h.batches
  generalize ledger.transactions = transactions at hbatches ⊢
  induction transactions with
  | nil => rfl
  | cons t ts ih =>
    obtain ⟨_, _, -, -, hid⟩ := hbatches t (.head _)
    rw [List.flatMap_cons, List.filter_append, ih fun t ht => hbatches t (.tail _ ht)]
    by_cases hk : t.correlationId = k
    · rw [List.filter_cons_of_pos (by simpa using hk), List.flatMap_cons]
      congr 1
      exact List.filter_eq_self.mpr fun e he => by simp [hid e he, hk]
    · rw [List.filter_cons_of_neg (by simpa using hk)]
      have hnone : (t.entries.filter fun e => e.correlationId = k) = [] :=
        List.filter_eq_nil_iff.mpr fun e he => by simp [hid e he, hk]
      rw [hnone, List.nil_append]

include h in
/-- A group passes the rules of an append where none of its ids are taken. -/
theorem Recorded.accepted_group {k : JsString} {group : List LedgerEntry}
    (hgroup : (k, group) ∈ (groups ledger.entries).entries) {entries : List LedgerEntry}
    {transactions : List LedgerTransaction}
    (hfresh : ∀ e ∈ group, e.id ∉ entries.map LedgerEntry.id) :
    Accepted ⟨ledger.accounts, entries, entries.map LedgerEntry.id, transactions⟩ k group := by
  obtain ⟨hfilter, -⟩ := (JsMap.mem_entries_groupBy _).mp hgroup
  have hmem : ∀ e ∈ group, e ∈ ledger.entries ∧ e.correlationId = k := fun _ =>
    mem_of_mem_group hgroup
  refine ⟨fun e he => (hmem e he).2, hfresh, ?_, fun e he => h.sound.accounts e (hmem e he).1,
    fun e he => h.sound.valid e (hmem e he).1, fun e he => h.sound.positive e (hmem e he).1, ?_⟩
  · rw [hfilter]
    exact (h.entryIds ▸ h.nodup).sublist (List.filter_sublist.map _)
  · rw [hfilter, h.filter_correlationId]
    exact scaledBalanced_flatMap fun t ht => h.sound.balanced t (List.mem_filter.mp ht).1

include h in
theorem Recorded.foldlM_groups {done todo : List (JsString × List LedgerEntry)}
    (hgroups : (groups ledger.entries).entries = done ++ todo) :
    (todo.map Prod.snd).foldlM replayGroup
      ⟨ledger.accounts, (done.map Prod.snd).flatten,
        (done.map Prod.snd).flatten.map LedgerEntry.id, done.map replayed⟩ =
      .ok (regrouped ledger) := by
  induction todo generalizing done with
  | nil =>
    rw [List.append_nil] at hgroups
    simp [regrouped, JsMap.values, hgroups]
    rfl
  | cons g todo ih =>
    obtain ⟨k, group⟩ := g
    have hmem : (k, group) ∈ (groups ledger.entries).entries := by simp [hgroups]
    have hfresh : ∀ e ∈ group, e.id ∉ (done.map Prod.snd).flatten.map LedgerEntry.id := by
      intro e he hmem'
      obtain ⟨e', he', hid⟩ := List.mem_map.mp hmem'
      obtain ⟨group', hgroup', he'⟩ := List.mem_flatten.mp he'
      obtain ⟨⟨k', _⟩, hdone, rfl⟩ := List.mem_map.mp hgroup'
      -- the two entries have one id, so they are one entry of two groups
      have hk := mem_of_mem_group hmem he
      have hk' := mem_of_mem_group (hgroups ▸ List.mem_append_left _ hdone) he'
      have heq : e' = e := List.inj_on_of_nodup_map (h.entryIds ▸ h.nodup) hk'.1 hk.1 hid
      have hnodup := (groups ledger.entries).nodup
      rw [hgroups, List.map_append, List.nodup_append] at hnodup
      apply hnodup.2.2 k' (List.mem_map_of_mem hdone) k (by simp)
      rw [← hk'.2, ← hk.2, heq]
    obtain ⟨hfilter, hne⟩ := (JsMap.mem_entries_groupBy _).mp hmem
    obtain ⟨first, rest, rfl⟩ := List.exists_cons_of_ne_nil hne
    have hacc : Accepted ⟨ledger.accounts, (done.map Prod.snd).flatten,
        (done.map Prod.snd).flatten.map LedgerEntry.id, done.map replayed⟩ k (first :: rest) :=
      h.accepted_group hmem hfresh
    have hk : first.correlationId = k := hacc.correlationId first (.head _)
    have happend := (append_eq_ok_iff.mpr ⟨first, rest, rfl, hk ▸ hacc, rfl⟩ :
      Ledger.append _ (first :: rest) none = .ok _)
    rw [List.map_cons, List.foldlM_cons, replayGroup, happend]
    have hnext := @ih (done ++ [(k, first :: rest)]) (by simp [hgroups])
    simp only [List.map_append, List.map_cons, List.map_nil, List.flatten_append,
      List.flatten_singleton] at hnext
    rw [← hnext, ← hk]
    rfl

include h in
/-- A snapshot of a reachable ledger is restored, group by group. -/
theorem Recorded.fromSnapshot (createdAt : JsString) :
    fromSnapshot (ledger.snapshot createdAt) = .ok (regrouped ledger) := by
  have haccounts : restoreAccounts (ledger.snapshot createdAt).accounts = .ok ledger.accounts :=
    restoreAccounts_values h.keyed
  rw [Ledger.fromSnapshot, haccounts]
  exact @Recorded.foldlM_groups _ h [] _ rfl

include h in
/-- Transactions of distinct correlation ids are the groups. -/
theorem Recorded.groups_of_nodup
    (hnodup : (ledger.transactions.map LedgerTransaction.correlationId).Nodup) :
    (groups ledger.entries).entries = ledger.transactions.map fun t => (t.correlationId, t.entries) := by
  rw [h.sound.entries]
  apply JsMap.entries_groupBy_flatMap _ hnodup
  · intro t ht hnil
    obtain ⟨_, _, hentries, -⟩ := h.batches t ht
    rw [hnil] at hentries
    cases hentries
  · intro t ht e he
    obtain ⟨_, _, -, -, hid⟩ := h.batches t ht
    exact hid e he

/-- A transaction without its description. -/
def grouping (t : LedgerTransaction) : LedgerTransaction := { t with description := none }

theorem replayed_of_fromBatch {t : LedgerTransaction} (ht : FromBatch t) :
    replayed (t.correlationId, t.entries) = grouping t := by
  obtain ⟨first, rest, hentries, htimestamp, -⟩ := ht
  simp [replayed, grouping, hentries, htimestamp]

include h in
theorem Recorded.transactions_regrouped
    (hnodup : (ledger.transactions.map LedgerTransaction.correlationId).Nodup) :
    (regrouped ledger).transactions = ledger.transactions.map grouping := by
  rw [regrouped, h.groups_of_nodup hnodup, List.map_map]
  apply List.map_congr_left
  exact fun t ht => replayed_of_fromBatch (h.batches t ht)

include h in
theorem Recorded.entries_regrouped
    (hnodup : (ledger.transactions.map LedgerTransaction.correlationId).Nodup) :
    (regrouped ledger).entries = ledger.entries := by
  rw [regrouped, JsMap.values, h.groups_of_nodup hnodup, List.map_map, h.sound.entries,
    List.flatMap_def]
  rfl

end regroup

/-! ## The round trip -/

/-- What comes back of a ledger: everything but the descriptions of its transactions. -/
structure Restores (ledger restored : Ledger) : Prop where
  accounts : restored.accounts = ledger.accounts
  entries : restored.entries = ledger.entries
  transactions : restored.transactions.map grouping = ledger.transactions.map grouping
  snapshot : ∀ createdAt, restored.snapshot createdAt = ledger.snapshot createdAt
  balance : ∀ accountId, restored.getBalance accountId = ledger.getBalance accountId

theorem restores_of_eq {ledger restored : Ledger} (haccounts : restored.accounts = ledger.accounts)
    (hentries : restored.entries = ledger.entries)
    (htransactions : restored.transactions.map grouping = ledger.transactions.map grouping) :
    Restores ledger restored := by
  refine ⟨haccounts, hentries, htransactions, fun createdAt => ?_, fun accountId => ?_⟩
  · rw [Ledger.snapshot, Ledger.snapshot, haccounts, hentries]
  · rw [getBalance, getBalance, haccounts, hentries]

/-- The snapshot of a reachable ledger restores it exactly when no two of its transactions share
a correlation id. -/
theorem fromSnapshot_snapshot_iff {ledger : Ledger} (h : ledgerSystem.Reachable ledger)
    (createdAt : JsString) :
    (∃ restored, fromSnapshot (ledger.snapshot createdAt) = .ok restored ∧
      Restores ledger restored) ↔
        (ledger.transactions.map LedgerTransaction.correlationId).Nodup := by
  have hrecorded := recorded_of_reachable h
  rw [hrecorded.fromSnapshot]
  constructor
  · rintro ⟨restored, heq, hrestores⟩
    cases heq
    -- the restored transactions are the groups, whose keys are distinct
    have hkeys : ((regrouped ledger).transactions.map grouping).map
        LedgerTransaction.correlationId = (groups ledger.entries).keys := by
      simp [regrouped, JsMap.keys, replayed, grouping, Function.comp_def]
    have hids : (ledger.transactions.map grouping).map LedgerTransaction.correlationId =
        ledger.transactions.map LedgerTransaction.correlationId := by
      simp [grouping, Function.comp_def]
    rw [← hids, ← hrestores.transactions, hkeys]
    exact (groups ledger.entries).nodup
  · intro hnodup
    refine ⟨_, rfl, restores_of_eq rfl (hrecorded.entries_regrouped hnodup) ?_⟩
    rw [hrecorded.transactions_regrouped hnodup, List.map_map]
    rfl

theorem reachable_twoScales : ledgerSystem.Reachable twoScales :=
  ((reachableVia_twoAccounts fun _ _ _ => trivial).step trivial rfl).step trivial rfl

theorem fromSnapshot_snapshot_twoScales :
    ∃ restored, fromSnapshot (twoScales.snapshot (js "t")) = .ok restored ∧
      Restores twoScales restored :=
  (fromSnapshot_snapshot_iff reachable_twoScales (js "t")).mpr (by decide +kernel)

/-- A third transaction, with the correlation id of the first one. -/
def interleaved : Ledger := twoScales.call (.append (fineBatch "5" "6" "a") none)

theorem not_restores_interleaved :
    ¬ ∀ ledger, ledgerSystem.Reachable ledger → ∀ createdAt,
      ∃ restored, fromSnapshot (ledger.snapshot createdAt) = .ok restored ∧
        Restores ledger restored := by
  intro h
  have hreach : ledgerSystem.Reachable interleaved := reachable_twoScales.step trivial rfl
  obtain ⟨restored, heq, hrestores⟩ := h interleaved hreach (js "t")
  rw [(recorded_of_reachable hreach).fromSnapshot] at heq
  cases heq
  -- the entries of the third transaction come back before those of the second
  have hids := congrArg (List.map LedgerEntry.id) hrestores.entries
  revert hids
  decide +kernel

/-! ## Adjacent batches -/

/-- A batch is of a new correlation id, or of the one of the last transaction. -/
def Contiguous (ledger : Ledger) : LedgerCall → Prop
  | .registerAccount _ _ => True
  | .append entries _ => ∀ e ∈ entries,
    (∀ t ∈ ledger.transactions, t.correlationId ≠ e.correlationId) ∨
      ∃ t, ledger.transactions.getLast? = some t ∧ t.correlationId = e.correlationId

/-- The groups stand in the order of the entries, and the last transaction is in the last one. -/
structure Adjacent (ledger : Ledger) : Prop where
  flatten : (groups ledger.entries).values.flatten = ledger.entries
  last : ∀ t, ledger.transactions.getLast? = some t →
    ∃ init group, (groups ledger.entries).entries = init ++ [(t.correlationId, group)]

theorem values_flatten {m : JsMap JsString (List LedgerEntry)} :
    m.values.flatten = m.entries.flatMap Prod.snd := by
  rw [JsMap.values, List.flatMap_def]

theorem Adjacent.append {ledger : Ledger} (hrecorded : Recorded ledger) (h : Adjacent ledger)
    {entries : List LedgerEntry} {description : Option JsString}
    (hcontiguous : Contiguous ledger (.append entries description))
    {r : Ledger × AppendResult} (happend : ledger.append entries description = .ok r) :
    Adjacent r.1 := by
  obtain ⟨first, rest, rfl, hacc, rfl⟩ := append_eq_ok_iff.mp happend
  have hkey := hacc.correlationId
  -- both cases write the batch behind the groups that there are
  suffices hgroups : (groups (ledger.entries ++ first :: rest)).values.flatten =
      ledger.entries ++ first :: rest ∧ ∃ init group,
        (groups (ledger.entries ++ first :: rest)).entries =
          init ++ [(first.correlationId, group)] by
    refine ⟨hgroups.1, fun t ht => ?_⟩
    rw [List.getLast?_append_of_ne_nil _ (List.cons_ne_nil _ _), List.getLast?_singleton] at ht
    rw [← Option.some.inj ht]
    exact hgroups.2
  have hflatten := h.flatten
  rw [values_flatten] at hflatten
  rcases hcontiguous first (.head _) with hnew | ⟨t, ht, hid⟩
  · have hold : ∀ e ∈ ledger.entries, e.correlationId ≠ first.correlationId := by
      intro e he
      rw [hrecorded.sound.entries] at he
      obtain ⟨t, ht, he⟩ := List.mem_flatMap.mp he
      obtain ⟨_, _, -, -, hid⟩ := hrecorded.batches t ht
      rw [hid e he]
      exact hnew t ht
    have hentries := JsMap.entries_groupBy_append_of_new LedgerEntry.correlationId hold hkey
      (List.cons_ne_nil _ _)
    rw [values_flatten, groups, hentries]
    refine ⟨?_, _, _, rfl⟩
    rw [List.flatMap_append, List.flatMap_singleton]
    exact congrArg (· ++ first :: rest) hflatten
  · obtain ⟨init, group, hlast⟩ := h.last t ht
    rw [hid] at hlast
    have hentries := JsMap.entries_groupBy_append_of_last LedgerEntry.correlationId hlast hkey
    rw [values_flatten, groups, hentries]
    refine ⟨?_, _, _, rfl⟩
    rw [hlast] at hflatten
    rw [← hflatten]
    simp

theorem adjacent_of_reachableVia {ledger : Ledger} (h : ledgerSystem.ReachableVia Contiguous ledger) :
    Recorded ledger ∧ Adjacent ledger := by
  apply h.invariant (I := fun l => Recorded l ∧ Adjacent l)
  · rintro _ rfl
    exact ⟨recorded_new, rfl, fun t ht => by cases ht⟩
  · rintro l c l' ⟨hrecorded, hl⟩ hok hnext
    rw [← Option.some.inj hnext]
    cases c with
    | registerAccount ref timestamp =>
      rw [Ledger.call]
      split
      · rename_i hreg
        refine ⟨hrecorded.registerAccount hreg, ?_⟩
        obtain ⟨⟨accounts, account⟩, -, heq⟩ := bind_eq_ok.mp hreg
        cases heq
        exact ⟨hl.flatten, hl.last⟩
      · exact ⟨hrecorded, hl⟩
    | append entries description =>
      rw [Ledger.call]
      split
      · rename_i happend
        exact ⟨hrecorded.append happend, hl.append hrecorded hok happend⟩
      · exact ⟨hrecorded, hl⟩

/-- Where the groups stand in the order of the entries, the snapshot comes back as it was. -/
theorem Adjacent.snapshot_regrouped {ledger : Ledger} (h : Adjacent ledger) (createdAt : JsString) :
    (regrouped ledger).snapshot createdAt = ledger.snapshot createdAt := by
  rw [Ledger.snapshot, Ledger.snapshot, regrouped, h.flatten]

end Attestia.Ledger
