import Attestia.Ledger.Conservation
import Attestia.Lib.Effect

/-!
# Atomicity of an append

`append` as the source writes it, one push after the other behind the rules: a throw leaves
the ledger as it was, and the entries that were there stay in front. What every reachable
ledger keeps of its appends is here as well.
-/

namespace Attestia.Ledger

open Lib JsonNumber Effect

/-- `Set.prototype.add`. -/
def addId (ids : List JsString) (id : JsString) : List JsString :=
  if id ∈ ids then ids else ids ++ [id]

/-- The body of the loop that writes. -/
def pushEntry (entry : LedgerEntry) (ledger : Ledger) : Ledger :=
  { ledger with
    entries := ledger.entries ++ [entry]
    entryIds := addId ledger.entryIds entry.id }

/-- `append` on the ledger that it is called on. -/
def appendEffect (entries : List LedgerEntry) (description : Option JsString) :
    Effect Ledger LedgerError AppendResult :=
  match entries with
  | [] => throw ⟨.emptyTransaction, js "Cannot append an empty set of entries"⟩
  | first :: _ => do
    let correlationId := first.correlationId
    forM entries fun entry => check (assertCorrelationId correlationId entry)
    check (assertUniqueIds (← get).entryIds [] entries)
    forM entries fun entry => do
      let _ ← check ((← get).accounts.assertExists entry.accountId)
    forM entries fun entry => check (validateMoney entry.money)
    forM entries fun entry => check (assertPositive entry)
    check (assertBalanced entries)
    -- nothing is thrown from here on
    let timestamp := first.timestamp
    forM entries fun entry => modify (pushEntry entry)
    modify fun ledger => { ledger with
      transactions := ledger.transactions ++ [⟨correlationId, entries, timestamp, description⟩] }
    return ⟨correlationId, entries.length, timestamp⟩

/-- Pushing entries of new ids, one by one. -/
theorem foldl_pushEntry {ledger : Ledger} {entries : List LedgerEntry}
    (hfresh : ∀ e ∈ entries, e.id ∉ ledger.entryIds) (hnodup : (entries.map LedgerEntry.id).Nodup) :
    entries.foldl (fun ledger e => pushEntry e ledger) ledger =
      { ledger with
        entries := ledger.entries ++ entries
        entryIds := ledger.entryIds ++ entries.map LedgerEntry.id } := by
  induction entries generalizing ledger with
  | nil => simp
  | cons e es ih =>
    rw [List.map_cons, List.nodup_cons] at hnodup
    have hpush : pushEntry e ledger = { ledger with
        entries := ledger.entries ++ [e], entryIds := ledger.entryIds ++ [e.id] } := by
      rw [pushEntry, addId, if_neg (hfresh e (.head _))]
    rw [List.foldl_cons, hpush, ih ?_ hnodup.2]
    · simp
    · intro a ha hmem
      rcases List.mem_append.mp hmem with hmem | hmem
      · exact hfresh a (.tail _ ha) hmem
      · exact hnodup.1 (List.mem_singleton.mp hmem ▸ List.mem_map_of_mem ha)

/-- An append writes only where it returns. -/
theorem outcome_appendEffect (entries : List LedgerEntry) (description : Option JsString)
    (ledger : Ledger) :
    (appendEffect entries description).outcome ledger =
      settle ledger (ledger.append entries description) := by
  cases entries with
  | nil => rfl
  | cons first rest =>
    have haccount : ∀ entry ∈ first :: rest,
        outcome (do let _ ← check ((← get).accounts.assertExists entry.accountId)) ledger =
          ((ledger.accounts.assertExists entry.accountId).map fun _ => (), ledger) := by
      intro entry _
      rw [outcome_get_bind, outcome_check_bind]
      cases ledger.accounts.assertExists entry.accountId <;> rfl
    rw [appendEffect, append]
    -- the rules stand in the same order on both sides
    rw [outcome_bind_of_check (outcome_forM_check fun _ _ => outcome_check _ _)]
    refine outcome_check_bind_eq_settle fun _ _ => ?_
    rw [outcome_get_bind]
    refine outcome_check_bind_eq_settle fun _ hids => ?_
    rw [outcome_bind_of_check (outcome_forM_check haccount)]
    refine outcome_check_bind_eq_settle fun _ _ => ?_
    rw [outcome_bind_of_check (outcome_forM_check fun _ _ => outcome_check _ _)]
    refine outcome_check_bind_eq_settle fun _ _ => ?_
    rw [outcome_bind_of_check (outcome_forM_check fun _ _ => outcome_check _ _)]
    refine outcome_check_bind_eq_settle fun _ _ => ?_
    refine outcome_check_bind_eq_settle fun _ _ => ?_
    obtain ⟨hfresh, hnodup⟩ := assertUniqueIds_eq_ok.mp hids
    rw [outcome_bind_of_ok (outcome_forM_modify pushEntry _ _),
      foldl_pushEntry (fun e he => (hfresh e he).1) hnodup]
    rfl

/-! ## What appends leave -/

/-- A transaction is a batch: it has entries, all of its correlation id, and the time of the
first one. -/
def FromBatch (t : LedgerTransaction) : Prop :=
  ∃ first rest, t.entries = first :: rest ∧ t.timestamp = first.timestamp ∧
    ∀ e ∈ t.entries, e.correlationId = t.correlationId

structure Recorded (ledger : Ledger) : Prop where
  sound : Sound ledger
  keyed : ∀ id account, ledger.accounts.get? id = some account → account.ref.id = id
  entryIds : ledger.entryIds = ledger.entries.map LedgerEntry.id
  nodup : ledger.entryIds.Nodup
  batches : ∀ t ∈ ledger.transactions, FromBatch t

theorem recorded_new : Recorded .new :=
  ⟨sound_new, fun _ _ h => (nomatch h), rfl, List.nodup_nil, fun _ h => (nomatch h)⟩

theorem Recorded.append {ledger : Ledger} (h : Recorded ledger) {entries : List LedgerEntry}
    {description : Option JsString} {r : Ledger × AppendResult}
    (happend : ledger.append entries description = .ok r) : Recorded r.1 := by
  have hsound := h.sound.call (.append entries description)
  simp only [Ledger.call, happend] at hsound
  obtain ⟨first, rest, rfl, hacc, rfl⟩ := append_eq_ok_iff.mp happend
  refine ⟨hsound, h.keyed, ?_, ?_, ?_⟩
  · simp [h.entryIds]
  · apply List.nodup_append.mpr ⟨h.nodup, hacc.nodup, ?_⟩
    rintro id hid id' hid' rfl
    obtain ⟨e, he, rfl⟩ := List.mem_map.mp hid'
    exact hacc.fresh e he hid
  · intro t ht
    rcases List.mem_append.mp ht with ht | ht
    · exact h.batches t ht
    · rw [List.mem_singleton.mp ht]
      exact ⟨first, rest, rfl, rfl, hacc.correlationId⟩

theorem Recorded.registerAccount {ledger : Ledger} (h : Recorded ledger) {ref : AccountRef}
    {timestamp : JsString} {r : Ledger × LedgerAccount}
    (hreg : ledger.registerAccount ref timestamp = .ok r) : Recorded r.1 := by
  have hsound := h.sound.call (.registerAccount ref timestamp)
  simp only [Ledger.call, hreg] at hsound
  obtain ⟨⟨accounts, account⟩, hregister, heq⟩ := bind_eq_ok.mp hreg
  cases heq
  refine ⟨hsound, fun id account hget => ?_, h.entryIds, h.nodup, h.batches⟩
  unfold AccountRegistry.register at hregister
  split at hregister
  · cases hregister
  · cases hregister
    rw [JsMap.get?_set] at hget
    split at hget
    · rename_i hid
      rw [← Option.some.inj hget, ← hid]
    · exact h.keyed id account hget

theorem recorded_of_reachable {ledger : Ledger} (h : ledgerSystem.Reachable ledger) :
    Recorded ledger := by
  apply h.invariant
  · rintro _ rfl
    exact recorded_new
  · intro l c l' hl hnext
    rw [← Option.some.inj hnext]
    cases c with
    | registerAccount ref timestamp =>
      rw [Ledger.call]
      split
      · rename_i hreg
        exact hl.registerAccount hreg
      · exact hl
    | append entries description =>
      rw [Ledger.call]
      split
      · rename_i happend
        exact hl.append happend
      · exact hl

/-- Ids are distinct, amounts are positive, accounts are registered, and the transactions
partition the entries. -/
structure Consistent (ledger : Ledger) : Prop where
  ids : (ledger.entries.map LedgerEntry.id).Nodup
  positive : ∀ e ∈ ledger.entries, ∃ n, parseAmount e.money.amount e.money.decimals = .ok n ∧ 0 < n
  registered : ∀ e ∈ ledger.entries, e.accountId ∈ ledger.accounts.keys
  partition : ledger.entries = ledger.transactions.flatMap LedgerTransaction.entries
  nonempty : ∀ t ∈ ledger.transactions, t.entries ≠ []

theorem Recorded.consistent {ledger : Ledger} (h : Recorded ledger) : Consistent ledger where
  ids := h.entryIds ▸ h.nodup
  positive e he := ⟨_, (h.sound.valid e he).parses, h.sound.positive e he⟩
  registered e he := JsMap.mem_keys.mpr (h.sound.accounts e he)
  partition := h.sound.entries
  nonempty t ht hnil := by
    obtain ⟨_, _, hentries, -⟩ := h.batches t ht
    rw [hnil] at hentries
    cases hentries

/-- Nothing that can be read of a ledger differs. -/
structure Unchanged (ledger ledger' : Ledger) : Prop where
  entries : ledger'.entries = ledger.entries
  transactions : ledger'.transactions = ledger.transactions
  accounts : ledger'.accounts = ledger.accounts
  balance : ∀ accountId, ledger'.getBalance accountId = ledger.getBalance accountId

/-- An append of a reachable ledger that throws changes nothing, and one that returns writes its
entries behind the old ones. -/
theorem append_atomic {ledger : Ledger} (h : ledgerSystem.Reachable ledger) :
    Consistent ledger ∧
      ∀ entries description,
        (∀ e ledger', (appendEffect entries description).outcome ledger = (.error e, ledger') →
          Unchanged ledger ledger') ∧
        ∀ result ledger', (appendEffect entries description).outcome ledger = (.ok result, ledger') →
          ledger'.entries = ledger.entries ++ entries := by
  refine ⟨(recorded_of_reachable h).consistent, fun entries description => ⟨?_, ?_⟩⟩
  · intro e ledger' houtcome
    rw [outcome_appendEffect] at houtcome
    rcases happend : ledger.append entries description with e' | r <;> rw [happend] at houtcome
    · cases houtcome
      exact ⟨rfl, rfl, rfl, fun _ => rfl⟩
    · cases houtcome
  · intro result ledger' houtcome
    rw [outcome_appendEffect] at houtcome
    rcases happend : ledger.append entries description with e' | r <;> rw [happend] at houtcome
    · cases houtcome
    · cases houtcome
      obtain ⟨_, _, -, -, rfl⟩ := append_eq_ok_iff.mp happend
      rfl

/-- A batch that balances and one that does not, in a ledger of two accounts. -/
theorem append_atomic_twoAccounts :
    ((appendEffect evenBatch none).outcome twoAccounts).2.entries = evenBatch ∧
      Unchanged twoAccounts ((appendEffect (evenBatch.take 1) none).outcome twoAccounts).2 := by
  have h := append_atomic (reachableVia_twoAccounts fun _ _ _ => trivial)
  have hok : ((appendEffect evenBatch none).outcome twoAccounts).1.isOk = true := by decide +kernel
  have herr : ((appendEffect (evenBatch.take 1) none).outcome twoAccounts).1.isOk = false := by
    decide +kernel
  constructor
  · rcases hr : (appendEffect evenBatch none).outcome twoAccounts with ⟨e | result, ledger'⟩
    · rw [hr] at hok
      cases hok
    · exact (h.2 evenBatch none).2 result ledger' hr
  · rcases hr : (appendEffect (evenBatch.take 1) none).outcome twoAccounts with ⟨e | result, ledger'⟩
    · exact (h.2 _ none).1 e ledger' hr
    · rw [hr] at herr
      cases herr

end Attestia.Ledger
