import Attestia.Ledger.Atomic
import Attestia.Ledger.TrialBalance

/-!
# Postings

What the executions of the treasury write to a ledger: the accounts that are missing are
registered one after the other, and one batch of transfers is appended behind them. A batch
that the ledger rejects leaves the new accounts behind.
-/

namespace Attestia.Treasury

open Lib Ledger Effect

/-- A text between apostrophes. -/
def named (s : JsString) : JsString := js "'" ++ s ++ js "'"

/-- What an execution throws: an error of its own, or one of the ledger. -/
inductive ExecutionError (ε : Type) where
  | own (error : ε)
  | ledger (error : LedgerError)

/-- The texts of the clock during an execution. -/
structure Clock where
  registeredAt : JsString → JsString
  now : JsString
  executedAt : JsString

/-! ## Accounts -/

def registerEffect (ref : AccountRef) (timestamp : JsString) :
    Effect Ledger LedgerError LedgerAccount :=
  fun ledger => settle ledger (ledger.registerAccount ref timestamp)

/-- The account is registered where the ledger has none of its id. -/
def ensureAccount (clock : Clock) (ref : AccountRef) : Effect Ledger LedgerError Unit := do
  if !(← get).accounts.has ref.id then
    let _ ← registerEffect ref (clock.registeredAt ref.id)

def withAccount (clock : Clock) (ref : AccountRef) (ledger : Ledger) : Ledger :=
  if ledger.accounts.has ref.id then ledger
  else { ledger with accounts := ledger.accounts.set ref.id ⟨ref, clock.registeredAt ref.id⟩ }

theorem outcome_ensureAccount (clock : Clock) (ref : AccountRef) (ledger : Ledger) :
    outcome (ensureAccount clock ref) ledger = (.ok (), withAccount clock ref ledger) := by
  rw [ensureAccount, outcome_get_bind, withAccount]
  cases hhas : ledger.accounts.has ref.id with
  | true => rfl
  | false =>
    have hregister : ledger.registerAccount ref (clock.registeredAt ref.id) =
        .ok ({ ledger with accounts := ledger.accounts.set ref.id ⟨ref, clock.registeredAt ref.id⟩ },
          ⟨ref, clock.registeredAt ref.id⟩) := by
      rw [Ledger.registerAccount, AccountRegistry.register, hhas]
      rfl
    have houtcome : outcome (registerEffect ref (clock.registeredAt ref.id)) ledger =
        settle ledger (ledger.registerAccount ref (clock.registeredAt ref.id)) := rfl
    simp only [Bool.not_false, if_true, Bool.false_eq_true, if_false]
    rw [hregister] at houtcome
    rw [outcome_bind_of_ok houtcome, outcome_pure]

/-- The accounts are ensured in turn. -/
def withAccounts (clock : Clock) (refs : List AccountRef) (ledger : Ledger) : Ledger :=
  refs.foldl (fun ledger ref => withAccount clock ref ledger) ledger

theorem outcome_forM_ensureAccount (clock : Clock) (refs : List AccountRef) (ledger : Ledger) :
    outcome (forM refs (ensureAccount clock)) ledger =
      (.ok (), withAccounts clock refs ledger) := by
  induction refs generalizing ledger with
  | nil => rfl
  | cons ref refs ih =>
    rw [List.forM_cons, outcome_bind_of_ok (outcome_ensureAccount clock ref ledger), ih]
    rfl

section accounts

variable {clock : Clock} {refs : List AccountRef} {ledger : Ledger}

theorem mem_keys_withAccount {ref : AccountRef} {id : JsString} :
    id ∈ (withAccount clock ref ledger).accounts.keys ↔
      id = ref.id ∨ id ∈ ledger.accounts.keys := by
  rw [withAccount]
  split
  · rename_i hhas
    rw [JsMap.has_eq_true] at hhas
    exact ⟨.inr, fun h => h.elim (fun heq => heq ▸ hhas) fun hmem => hmem⟩
  · exact JsMap.mem_keys_set

/-- Nothing but the accounts is touched. -/
theorem withAccounts_eq (clock : Clock) (refs : List AccountRef) (ledger : Ledger) :
    withAccounts clock refs ledger =
      { ledger with accounts := (withAccounts clock refs ledger).accounts } := by
  induction refs generalizing ledger with
  | nil => rfl
  | cons ref refs ih =>
    obtain ⟨hentries, hids, htransactions⟩ :
        (withAccount clock ref ledger).entries = ledger.entries ∧
          (withAccount clock ref ledger).entryIds = ledger.entryIds ∧
          (withAccount clock ref ledger).transactions = ledger.transactions := by
      rw [withAccount]
      split <;> exact ⟨rfl, rfl, rfl⟩
    change withAccounts clock refs (withAccount clock ref ledger) = _
    rw [ih, hentries, hids, htransactions]
    rfl

theorem mem_keys_withAccounts {id : JsString} :
    id ∈ (withAccounts clock refs ledger).accounts.keys ↔
      (∃ ref ∈ refs, ref.id = id) ∨ id ∈ ledger.accounts.keys := by
  induction refs generalizing ledger with
  | nil => simp [withAccounts]
  | cons ref refs ih =>
    change id ∈ (withAccounts clock refs (withAccount clock ref ledger)).accounts.keys ↔ _
    rw [ih, mem_keys_withAccount]
    rw [List.exists_mem_cons_iff, or_assoc, or_left_comm, @eq_comm _ id ref.id]

/-- The ledger stays as it was exactly where no account is missing. -/
theorem withAccounts_eq_self_iff :
    withAccounts clock refs ledger = ledger ↔ ∀ ref ∈ refs, ref.id ∈ ledger.accounts.keys := by
  constructor
  · intro h ref href
    rw [← h]
    exact mem_keys_withAccounts.mpr (.inl ⟨ref, href, rfl⟩)
  · intro h
    induction refs with
    | nil => rfl
    | cons ref refs ih =>
      have hhas : ledger.accounts.has ref.id = true := JsMap.has_eq_true.mpr (h ref (.head _))
      change withAccounts clock refs (withAccount clock ref ledger) = ledger
      rw [withAccount, if_pos hhas]
      exact ih fun r hr => h r (.tail _ hr)

/-- An account is one of the ledger, or one that was missing. -/
theorem get?_withAccounts {id : JsString} {account : LedgerAccount}
    (h : (withAccounts clock refs ledger).accounts.get? id = some account) :
    ledger.accounts.get? id = some account ∨ ∃ ref ∈ refs, ref.id = id ∧ account.ref = ref := by
  induction refs generalizing ledger with
  | nil => exact .inl h
  | cons ref refs ih =>
    change (withAccounts clock refs (withAccount clock ref ledger)).accounts.get? id = _ at h
    rcases ih h with hget | ⟨r, hr, hid, href⟩
    · rw [withAccount] at hget
      split at hget
      · exact .inl hget
      · dsimp only at hget
        rw [JsMap.get?_set] at hget
        split at hget
        · rename_i hid
          cases hget
          exact .inr ⟨ref, .head _, hid, rfl⟩
        · exact .inl hget
    · exact .inr ⟨r, .tail _ hr, hid, href⟩

end accounts

/-! ## Transfers -/

/-- A debit and a credit of one money, whose ids start alike. -/
structure Transfer where
  base : JsString
  debit : JsString
  credit : JsString
  money : Money

def Transfer.entries (t : Transfer) (correlationId now : JsString) : List LedgerEntry :=
  [⟨t.base ++ js ":debit", t.debit, .debit, t.money, now, none, none, correlationId⟩,
    ⟨t.base ++ js ":credit", t.credit, .credit, t.money, now, none, none, correlationId⟩]

structure Posting where
  accounts : List AccountRef
  correlationId : JsString
  transfers : List Transfer
  description : JsString

namespace Posting

variable (p : Posting)

def entries (now : JsString) : List LedgerEntry :=
  p.transfers.flatMap fun t => t.entries p.correlationId now

/-- Every account of a transfer is ensured. -/
def Covered : Prop := ∀ t ∈ p.transfers, ∀ id, id = t.debit ∨ id = t.credit →
  ∃ ref ∈ p.accounts, ref.id = id

/-- The ledger with the accounts and the batch; an empty batch is not appended. -/
def post (clock : Clock) (ledger : Ledger) : Except LedgerError Ledger :=
  let prepared := withAccounts clock p.accounts ledger
  if p.transfers = [] then .ok prepared
  else (prepared.append (p.entries clock.now) (some p.description)).map Prod.fst

end Posting

/-- What the ledger asks of the ids and the amounts of a batch. -/
structure Writable (ledger : Ledger) (entries : List LedgerEntry) : Prop where
  fresh : ∀ e ∈ entries, e.id ∉ ledger.entryIds
  nodup : (entries.map LedgerEntry.id).Nodup
  valid : ∀ e ∈ entries, e.money.Valid
  positive : ∀ e ∈ entries, 0 < e.money.scaled

theorem scaledBalanced_transfers {transfers : List Transfer} {correlationId now : JsString} :
    ScaledBalanced (transfers.flatMap fun t => t.entries correlationId now) := by
  intro c
  induction transfers with
  | nil => rfl
  | cons t ts ih =>
    rw [List.flatMap_cons, inCurrency_append, sumOf_append, sumOf_append, ih]
    congr 1
    by_cases hc : t.money.currency = c <;>
      simp [inCurrency, sumOf, Transfer.entries, hc]

theorem Posting.mem_entries {p : Posting} {now : JsString} {e : LedgerEntry}
    (h : e ∈ p.entries now) : e.correlationId = p.correlationId ∧
      ∃ t ∈ p.transfers, e.money = t.money ∧ (e.accountId = t.debit ∨ e.accountId = t.credit) := by
  obtain ⟨t, ht, he⟩ := List.mem_flatMap.mp h
  simp only [Transfer.entries, List.mem_cons, List.not_mem_nil, or_false] at he
  rcases he with rfl | rfl
  · exact ⟨rfl, t, ht, rfl, .inl rfl⟩
  · exact ⟨rfl, t, ht, rfl, .inr rfl⟩

/-- The debit of a transfer. -/
theorem Posting.mem_entries_debit {p : Posting} {now : JsString} {t : Transfer}
    (h : t ∈ p.transfers) : (⟨t.base ++ js ":debit", t.debit, .debit, t.money, now, none, none,
      p.correlationId⟩ : LedgerEntry) ∈ p.entries now :=
  List.mem_flatMap.mpr ⟨t, h, .head _⟩

/-- The account of a transfer on one side. -/
def Transfer.account (t : Transfer) : LedgerEntryType → JsString
  | .debit => t.debit
  | .credit => t.credit

/-- The sum of an account on one side is that of its transfers. -/
theorem Posting.sideOf_entries (p : Posting) (now : JsString) (type : LedgerEntryType)
    {accountId currency : JsString} (hcurrency : ∀ t ∈ p.transfers, t.money.currency = currency) :
    sideOf type accountId currency (p.entries now) =
      (p.transfers.map fun t => if t.account type = accountId then t.money.value else 0).sum := by
  rw [Posting.entries, sideOf_flatMap]
  congr 1
  apply List.map_congr_left
  intro t ht
  have ht := hcurrency t ht
  cases type <;> by_cases hdebit : t.debit = accountId <;> by_cases hcredit : t.credit = accountId <;>
    simp [sideOf, entriesOf, sumOf, Transfer.entries, Transfer.account, ht, hdebit, hcredit]

/-- The ledger after a posting that is accepted. -/
def Posting.posted (p : Posting) (clock : Clock) (ledger : Ledger) : Ledger :=
  let entries := p.entries clock.now
  let prepared := withAccounts clock p.accounts ledger
  if p.transfers = [] then prepared
  else ⟨prepared.accounts, ledger.entries ++ entries, ledger.entryIds ++ entries.map LedgerEntry.id,
    ledger.transactions ++ [⟨p.correlationId, entries, clock.now, some p.description⟩]⟩

theorem Posting.accounts_posted (p : Posting) (clock : Clock) (ledger : Ledger) :
    (p.posted clock ledger).accounts = (withAccounts clock p.accounts ledger).accounts := by
  unfold posted
  split <;> rfl

theorem Posting.entries_posted (p : Posting) (clock : Clock) (ledger : Ledger) :
    (p.posted clock ledger).entries = ledger.entries ++ p.entries clock.now := by
  unfold posted
  split
  · rename_i hnil
    rw [withAccounts_eq, Posting.entries, hnil, List.flatMap_nil, List.append_nil]
  · rfl

/-- A posting is accepted exactly where its ids and amounts are. -/
theorem Posting.post_eq_ok_iff {p : Posting} (hcovered : p.Covered) {clock : Clock}
    {ledger ledger' : Ledger} : p.post clock ledger = .ok ledger' ↔
      Writable ledger (p.entries clock.now) ∧ ledger' = p.posted clock ledger := by
  rw [post, posted]
  by_cases hnil : p.transfers = []
  · have hentries : p.entries clock.now = [] := by rw [Posting.entries, hnil]; rfl
    rw [if_pos hnil, if_pos hnil, hentries]
    constructor
    · intro h
      exact ⟨⟨fun _ h => (nomatch h), List.nodup_nil, fun _ h => (nomatch h),
        fun _ h => (nomatch h)⟩, (Except.ok.inj h).symm⟩
    · rintro ⟨-, rfl⟩
      rfl
  · obtain ⟨t, ts, hts⟩ := List.exists_cons_of_ne_nil hnil
    obtain ⟨first, rest, hentries, hfirst, hnow⟩ : ∃ first rest, p.entries clock.now = first :: rest ∧
        first.correlationId = p.correlationId ∧ first.timestamp = clock.now := by
      rw [Posting.entries, hts, List.flatMap_cons]
      exact ⟨_, _, rfl, rfl, rfl⟩
    rw [if_neg hnil, if_neg hnil, map_eq_ok]
    have hprepared := withAccounts_eq clock p.accounts ledger
    constructor
    · rintro ⟨r, happend, rfl⟩
      obtain ⟨first', rest', heq, hacc, rfl⟩ := append_eq_ok_iff.mp happend
      cases hentries.symm.trans heq
      rw [hprepared] at hacc ⊢
      refine ⟨⟨hacc.fresh, hacc.nodup, hacc.valid, hacc.positive⟩, ?_⟩
      rw [hfirst, hnow]
    · rintro ⟨h, rfl⟩
      refine ⟨_, append_eq_ok_iff.mpr ⟨first, rest, hentries, ?_, rfl⟩, ?_⟩
      · rw [hprepared]
        refine ⟨fun e he => (mem_entries he).1.trans hfirst.symm, h.fresh, h.nodup, ?_, h.valid,
          h.positive, scaledBalanced_transfers⟩
        intro e he
        obtain ⟨-, t, ht, -, haccount⟩ := mem_entries he
        exact JsMap.mem_keys.mp (mem_keys_withAccounts.mpr (.inl (hcovered t ht _ haccount)))
      · rw [hprepared, hfirst, hnow]

/-! ## Ledgers that are posted to -/

theorem reachable_withAccounts {ledger : Ledger} (h : ledgerSystem.Reachable ledger) (clock : Clock)
    (refs : List AccountRef) : ledgerSystem.Reachable (withAccounts clock refs ledger) := by
  induction refs generalizing ledger with
  | nil => exact h
  | cons ref refs ih =>
    apply ih
    dsimp only
    rw [withAccount]
    split
    · exact h
    · rename_i hhas
      refine h.next (e := .registerAccount ref (clock.registeredAt ref.id)) ?_
      have hregister : ledger.registerAccount ref (clock.registeredAt ref.id) =
          .ok ({ ledger with
            accounts := ledger.accounts.set ref.id ⟨ref, clock.registeredAt ref.id⟩ },
            ⟨ref, clock.registeredAt ref.id⟩) := by
        rw [Ledger.registerAccount, AccountRegistry.register, if_neg hhas]
        rfl
      change some (ledger.call _) = _
      rw [Ledger.call, hregister]

theorem reachable_posted {p : Posting} {clock : Clock} {ledger ledger' : Ledger}
    (h : ledgerSystem.Reachable ledger) (hpost : p.post clock ledger = .ok ledger') :
    ledgerSystem.Reachable ledger' := by
  have hprepared := reachable_withAccounts h clock p.accounts
  unfold Posting.post at hpost
  split at hpost
  · rw [← Except.ok.inj hpost]
    exact hprepared
  · obtain ⟨r, happend, rfl⟩ := map_eq_ok.mp hpost
    refine hprepared.next (e := .append (p.entries clock.now) (some p.description)) ?_
    change some (Ledger.call _ _) = _
    rw [Ledger.call, happend]

/-! ## Executions -/

section execution

variable {M ε α : Type}

/-- A computation on the ledger, beside the manager that calls it. -/
def onLedger (x : Effect Ledger LedgerError α) : Effect (M × Ledger) (ExecutionError ε) α :=
  fun s => ((outcome x s.2).1.mapError .ledger, s.1, (outcome x s.2).2)

/-- The accounts of a posting are ensured, and its batch is appended. -/
def postEffect (clock : Clock) (p : Posting) : Effect Ledger LedgerError Unit := do
  forM p.accounts (ensureAccount clock)
  if p.transfers ≠ [] then
    let _ ← appendEffect (p.entries clock.now) (some p.description)

/-- The common shape of the executions: the checks of the manager give a posting, which is
written, and the manager and the result that are kept then. -/
def executePlan (clock : Clock) (plan : M → Except (ExecutionError ε) (Posting × M × α)) :
    Effect (M × Ledger) (ExecutionError ε) α := do
  let (p, m, a) ← check (plan (← get).1)
  onLedger (postEffect clock p)
  modify fun s => (m, s.2)
  return a

theorem outcome_postEffect (clock : Clock) (p : Posting) (ledger : Ledger) :
    outcome (postEffect clock p) ledger = match p.post clock ledger with
      | .error e => (.error e, withAccounts clock p.accounts ledger)
      | .ok ledger' => (.ok (), ledger') := by
  rw [postEffect, outcome_bind_of_ok (outcome_forM_ensureAccount clock p.accounts ledger),
    Posting.post]
  by_cases hnil : p.transfers = []
  · rw [if_neg (not_not.mpr hnil), if_pos hnil]
    rfl
  · rw [if_pos hnil, if_neg hnil, outcome_bind, outcome_appendEffect]
    rcases (withAccounts clock p.accounts ledger).append (p.entries clock.now)
      (some p.description) with e | r <;> rfl

theorem outcome_executePlan (clock : Clock)
    (plan : M → Except (ExecutionError ε) (Posting × M × α)) (s : M × Ledger) :
    outcome (executePlan clock plan) s = match plan s.1 with
      | .error e => (.error e, s)
      | .ok (p, m, a) =>
        match p.post clock s.2 with
        | .error e => (.error (.ledger e), s.1, withAccounts clock p.accounts s.2)
        | .ok ledger => (.ok a, m, ledger) := by
  rw [executePlan, outcome_get_bind, outcome_check_bind]
  rcases plan s.1 with e | ⟨p, m, a⟩
  · rfl
  · have hpost : outcome (onLedger (postEffect clock p) : Effect (M × Ledger) (ExecutionError ε) Unit) s =
        ((outcome (postEffect clock p) s.2).1.mapError .ledger, s.1,
          (outcome (postEffect clock p) s.2).2) := rfl
    rw [outcome_postEffect] at hpost
    dsimp only
    rw [outcome_bind, hpost]
    rcases p.post clock s.2 with e | ledger <;> rfl

/-- A call that throws leaves everything as it was. -/
def Atomic (s : M × Ledger) (result : Except (ExecutionError ε) α × M × Ledger) : Prop :=
  ∀ e s', result = (.error e, s') → s' = s

/-- The one thing that an execution can leave behind are accounts. -/
theorem atomic_executePlan_iff {clock : Clock}
    {plan : M → Except (ExecutionError ε) (Posting × M × α)} {s : M × Ledger}
    (hcovered : ∀ p m a, plan s.1 = .ok (p, m, a) → p.Covered) :
    Atomic s (outcome (executePlan clock plan) s) ↔ ∀ p m a, plan s.1 = .ok (p, m, a) →
      (∀ ref ∈ p.accounts, ref.id ∈ s.2.accounts.keys) ∨ Writable s.2 (p.entries clock.now) := by
  rw [outcome_executePlan]
  rcases hplan : plan s.1 with e | ⟨p, m, a⟩
  · constructor
    · exact fun _ p m a h => (nomatch h)
    · intro _ e s' h
      exact (Prod.mk.inj h).2.symm
  · dsimp only
    have hiff : ∀ ledger, p.post clock s.2 = .ok ledger ↔
        Writable s.2 (p.entries clock.now) ∧ ledger = p.posted clock s.2 := fun _ =>
      Posting.post_eq_ok_iff (hcovered p m a hplan)
    rcases hpost : p.post clock s.2 with e | ledger
    · -- the ledger rejects the batch behind the accounts
      have hrejected : ¬ Writable s.2 (p.entries clock.now) := by
        intro h
        rw [(hiff _).mpr ⟨h, rfl⟩] at hpost
        cases hpost
      constructor
      · intro h p' m' a' heq
        cases heq
        have hsame := congrArg Prod.snd (h _ _ rfl)
        exact .inl (withAccounts_eq_self_iff.mp hsame)
      · intro h e' s' heq
        have hall := (h p m a rfl).resolve_right hrejected
        obtain ⟨-, rfl⟩ := Prod.mk.inj heq
        rw [withAccounts_eq_self_iff.mpr hall]
    · constructor
      · intro _ p' m' a' heq
        cases heq
        exact .inr ((hiff ledger).mp hpost).1
      · intro _ e s' h
        cases h

end execution

end Attestia.Treasury
