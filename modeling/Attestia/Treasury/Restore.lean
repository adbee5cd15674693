import Attestia.Treasury.Steps

/-!
# Restored treasuries

A treasury that is restored from a snapshot has lost its pay schedules and its ledger: it replies
like the treasury itself where there were none of either.
-/

namespace Attestia.Treasury

open Lib JsonNumber Ledger Effect

/-- A reachable ledger without accounts is empty. -/
theorem ledger_eq_new {ledger : Ledger} (h : ledgerSystem.Reachable ledger)
    (hempty : ledger.accounts.entries = []) : ledger = .new := by
  have hrecorded := recorded_of_reachable h
  have haccounts : ledger.accounts = .empty := JsMap.ext hempty
  have hentries : ledger.entries = [] := by
    rw [List.eq_nil_iff_forall_not_mem]
    intro e he
    obtain ⟨account, haccount⟩ := hrecorded.sound.accounts e he
    rw [haccounts] at haccount
    cases haccount
  have hids : ledger.entryIds = [] := by rw [hrecorded.entryIds, hentries, List.map_nil]
  have htransactions : ledger.transactions = [] := by
    rw [List.eq_nil_iff_forall_not_mem]
    intro t ht
    apply hrecorded.consistent.nonempty t ht
    have hflat := hrecorded.sound.entries
    rw [hentries] at hflat
    exact List.flatMap_eq_nil_iff.mp hflat.symm t ht
  obtain ⟨accounts, entries, entryIds, transactions⟩ := ledger
  dsimp only at haccounts hentries hids htransactions
  subst haccounts hentries hids htransactions
  rfl

/-- The balance of a registered account is computed. -/
theorem exists_getBalance_of_mem {ledger : Ledger} (h : ledgerSystem.Reachable ledger)
    {accountId : JsString} (hmem : accountId ∈ ledger.accounts.keys) :
    ∃ b, ledger.getBalance accountId = .ok b := by
  obtain ⟨account, haccount⟩ := JsMap.mem_keys.mp hmem
  obtain ⟨m, hm, -⟩ := accountAccumulators (sound_of_reachableVia h).valid accountId
  exact ⟨_, bind_eq_ok.mpr ⟨account, AccountRegistry.assertExists_eq_ok.mpr haccount,
    bind_eq_ok.mpr ⟨m, hm, rfl⟩⟩⟩

theorem exists_fresh (ids : List JsString) : ∃ id, id ∉ ids := by
  obtain ⟨id, hid⟩ := Infinite.exists_notMem_finset ids.toFinset
  exact ⟨id, fun hmem => hid (List.mem_toFinset.mpr hmem)⟩

section

variable {t : Treasury}

/-- Without schedules a run has no entries. -/
theorem createRun_restored {id : JsString} (hnew : id ∉ t.payroll.runs.keys) (period : PayPeriod)
    (createdAt : JsString) : ∃ engine run,
      t.restored.payroll.createRun id period createdAt = .ok (engine, run) ∧ run.entries = [] := by
  have hhas : t.restored.payroll.runs.has id = false := by
    rw [Bool.eq_false_iff, ne_eq, JsMap.has_eq_true]
    exact hnew
  exact ⟨_, _, bind_unit_eq_ok.mpr ⟨throwIf_eq_ok.mpr (by rw [hhas]; decide), rfl⟩, rfl⟩

theorem schedules_eq_nil_of_replies (h : Coherent t)
    (hreplies : ∀ cs, t.restored.replies cs = t.replies cs) : t.payroll.schedules.entries = [] := by
  obtain ⟨id, hid⟩ := exists_fresh t.payroll.runs.keys
  let period : PayPeriod := ⟨[], [], []⟩
  have hreply := List.head_eq_of_cons_eq (hreplies [.createPayrollRun id period []])
  obtain ⟨engine, run, hrun, hentries⟩ := createRun_restored hid period []
  simp only [respond, onPayroll, hrun] at hreply
  rcases hcreate : t.payroll.createRun id period [] with e | ⟨engine', run'⟩ <;>
    rw [hcreate] at hreply
  · cases hreply
  · cases hreply
    obtain ⟨-, -, -, -, hpayees, -⟩ := PayrollEngine.createRun_eq_ok hcreate
    -- every scheduled payee is active
    have hactive : t.payroll.schedules.entries.filter t.payroll.isActive =
        t.payroll.schedules.entries := by
      rw [List.filter_eq_self]
      intro e he
      have hpayee := h.schedules e.1 (List.mem_map_of_mem he)
      obtain ⟨payee, hpayee⟩ := JsMap.mem_keys.mp hpayee
      rw [PayrollEngine.isActive, hpayee, Option.map_some, (h.payees _ _ hpayee).2]
      rfl
    rw [hactive, hentries] at hpayees
    exact List.map_eq_nil_iff.mp hpayees.symm

theorem accounts_eq_nil_of_replies (h : Coherent t)
    (hreplies : ∀ cs, t.restored.replies cs = t.replies cs) : t.ledger.accounts.entries = [] := by
  rcases hentries : t.ledger.accounts.entries with _ | ⟨e, es⟩
  · rfl
  · have hmem : e.1 ∈ t.ledger.accounts.keys := by
      rw [JsMap.keys, hentries]
      exact .head _
    obtain ⟨b, hb⟩ := exists_getBalance_of_mem h.ledger hmem
    have hreply := List.head_eq_of_cons_eq (hreplies [.getBalance e.1])
    simp only [respond, hb] at hreply
    cases hreply

theorem restored_eq_self (h : Coherent t) (hschedules : t.payroll.schedules.entries = [])
    (haccounts : t.ledger.accounts.entries = []) : t.restored = t := by
  have hledger := ledger_eq_new h.ledger haccounts
  have hempty : t.payroll.schedules = .empty := JsMap.ext hschedules
  rw [restored, ← hledger, ← hempty]

end

/-- A treasury that is restored from the snapshot of a reachable one replies like it to every
sequence of calls exactly where no schedule was set and no account was registered. -/
theorem restored_replies_iff {t : Treasury} (h : treasurySystem.Reachable t) (asOf : JsString) :
    ∃ restored, fromSnapshot (t.snapshot asOf) = .ok restored ∧
      ((∀ cs, restored.replies cs = t.replies cs) ↔
        t.payroll.schedules.entries = [] ∧ t.ledger.accounts.entries = []) := by
  have hcoherent := coherent_of_reachableVia h
  refine ⟨t.restored, hcoherent.fromSnapshot asOf, ?_, ?_⟩
  · intro hreplies
    exact ⟨schedules_eq_nil_of_replies hcoherent hreplies,
      accounts_eq_nil_of_replies hcoherent hreplies⟩
  · rintro ⟨hschedules, haccounts⟩ cs
    rw [restored_eq_self hcoherent hschedules haccounts]

/-! ### A schedule that is lost -/

/-- A payee with a salary. -/
def scheduledTreasury : Treasury :=
  (freshTreasury.call (.registerPayee (js "p") (js "Pat") (js "x") none (js "t"))).call
    (.setPaySchedule (js "p") [⟨js "1", js "Salary", .base, dollars "100.00", true, true⟩])

theorem not_restored_scheduledTreasury :
    ¬ ∀ t, treasurySystem.Reachable t → ∀ asOf restored,
      fromSnapshot (t.snapshot asOf) = .ok restored → ∀ cs, restored.replies cs = t.replies cs := by
  intro h
  have hreach : treasurySystem.Reachable scheduledTreasury := by
    have hfirst : treasurySystem.Reachable
        (freshTreasury.call (.registerPayee (js "p") (js "Pat") (js "x") none (js "t"))) :=
      System.Reachable.next (.init init_freshTreasury) (e := .call _) rfl
    exact hfirst.next (e := .call _) rfl
  have hcoherent := coherent_of_reachableVia hreach
  have hreplies := h _ hreach (js "t") _ (hcoherent.fromSnapshot (js "t"))
  have hnone := schedules_eq_nil_of_replies hcoherent hreplies
  revert hnone
  decide

/-- A request that is not approved yet survives the restart. -/
theorem restored_replies_requestedTreasury :
    let t := freshTreasury.call
      (.submitFunding (js "r") (js "desks") (dollars "5.00") (js "carol") (js "t"))
    ∃ restored, fromSnapshot (t.snapshot (js "t")) = .ok restored ∧
      ∀ cs, restored.replies cs = t.replies cs := by
  intro t
  have hreach : treasurySystem.Reachable t :=
    System.Reachable.next (.init init_freshTreasury) (e := .call _) rfl
  obtain ⟨restored, hrestored, hiff⟩ := restored_replies_iff hreach (js "t")
  exact ⟨restored, hrestored, hiff.mpr ⟨rfl, rfl⟩⟩

end Attestia.Treasury
