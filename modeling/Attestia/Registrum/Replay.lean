import Attestia.Registrum.VersionHistory

/-!
# Replay

`persistence/replay.ts`. A call that accepts nothing leaves no trace: the accepted
transitions alone lead a fresh registrar to the same state.
-/

namespace Attestia.Registrum

open Lib

inductive ReplayOutcome where
  | accepted
  | rejected
  | halted
  deriving DecidableEq

structure ReplayResult where
  index : ℕ
  transition : Transition
  result : RegistrationResult
  outcome : ReplayOutcome

structure ReplayReport where
  total : ℕ
  accepted : ℕ
  rejected : ℕ
  halted : ℕ
  results : List ReplayResult

def classify : RegistrationResult → ReplayOutcome
  | .accepted _ _ _ => .accepted
  | .rejected violations =>
    if violations.any fun v => js "[HALT]" <:+: v.message then .halted else .rejected

/-- The loop of `replay`; what `register` throws leaves it. -/
def replayFrom : Registrar → ℕ → List Transition → Except RegisterError (List ReplayResult)
  | _, _, [] => .ok []
  | r, i, t :: ts => do
    let call := r.register t
    let result ← call.2
    let rest ← replayFrom call.1 (i + 1) ts
    return ⟨i, t, result, classify result⟩ :: rest

def replay (transitions : List Transition) (engine : Engine) : Except RegisterError ReplayReport := do
  let results ← replayFrom (.new engine) 0 transitions
  let count (outcome : ReplayOutcome) := (results.filter fun e => e.outcome = outcome).length
  return ⟨transitions.length, count .accepted, count .rejected, count .halted, results⟩

/-- All calls of a list, with what each of them returns or throws. -/
def Registrar.registerAll (r : Registrar) :
    List Transition → Registrar × List (Except RegisterError RegistrationResult)
  | [] => (r, [])
  | t :: ts =>
    let call := r.register t
    let rest := call.1.registerAll ts
    (rest.1, call.2 :: rest.2)

/-- The transitions that a list of calls accepts, each with its result. -/
def Registrar.acceptedCalls (r : Registrar) (ts : List Transition) :
    List (Transition × Except RegisterError RegistrationResult) :=
  (ts.zip (r.registerAll ts).2).filter fun e => (acceptedIndex e.2).isSome

namespace Registrar

theorem decision_withStatus (r : Registrar) (status : Option ParityStatus) (t : Transition) :
    (r.withStatus status).decision t = r.decision t := rfl

/-- The parity status decides nothing. -/
theorem register_withStatus (r : Registrar) (status : Option ParityStatus) (t : Transition) :
    ((r.withStatus status).register t).2 = (r.register t).2 ∧
      ∃ status', ((r.withStatus status).register t).1 = (r.register t).1.withStatus status' := by
  rw [register_eq_carryOut, register_eq_carryOut, decision_withStatus]
  cases r.decision t with
  | refuse recorded result =>
    cases recorded with
    | none => exact ⟨rfl, status, rfl⟩
    | some recorded => exact ⟨rfl, some recorded, rfl⟩
  | accept recorded applied =>
    obtain ⟨s, hs⟩ := (r.withStatus status).exists_record recorded
    obtain ⟨s', hs'⟩ := r.exists_record recorded
    have hsame : (r.withStatus status).record recorded = r.withStatus s := hs
    rw [carryOut, carryOut, hsame, hs', acceptTransition_withStatus, acceptTransition_withStatus]
    split
    · exact ⟨rfl, s, rfl⟩
    · exact ⟨rfl, s, rfl⟩

/-- The cursor of a registrar that has started empty stops where its keys could meet again. -/
structure Counting (r : Registrar) : Prop extends Keyed r where
  inRange : r.InRange

theorem Counting.register {r : Registrar} (h : r.Counting) (t : Transition) :
    (r.register t).1.Counting :=
  ⟨h.toKeyed.register t, h.inRange.register t⟩

theorem counting_new (engine : Engine) : Counting (new engine) :=
  ⟨keyed_new engine, le_rfl, show (0 : ℤ) ≤ safeBound by decide⟩

theorem Counting.withStatus {r : Registrar} (h : r.Counting) (status : Option ParityStatus) :
    (r.withStatus status).Counting :=
  ⟨h.toKeyed.withStatus status, h.inRange⟩

/-- A call that accepts nothing leaves all but the parity status as it was. -/
theorem Counting.register_of_none {r : Registrar} (h : r.Counting) {t : Transition}
    (hnone : acceptedIndex (r.register t).2 = none) :
    ∃ status, (r.register t).1 = r.withStatus status := by
  rcases r.outcome_register t with ⟨status, h1, -⟩ | ⟨status, h1, -, hkey⟩ | ⟨_, _, hindex, _⟩
  · exact ⟨status, h1⟩
  · -- the guard is only reached where the cursor has stopped
    have hge : safeBound ≤ r.currentOrderIndex := by
      by_contra hlt
      exact h.next_not_mem (not_le.mp hlt) t hkey
    have hcursor : r.currentOrderIndex = safeBound := le_antisymm h.inRange.2 hge
    refine ⟨status, ?_⟩
    rw [h1, advanced, hcursor, roundDouble_safeBound_add_one, ← hcursor]
  · cases hnone.symm.trans hindex

theorem acceptedCalls_cons (r : Registrar) (t : Transition) (ts : List Transition) :
    r.acceptedCalls (t :: ts) =
      if (acceptedIndex (r.register t).2).isSome then
        (t, (r.register t).2) :: (r.register t).1.acceptedCalls ts
      else (r.register t).1.acceptedCalls ts := by
  rw [acceptedCalls, registerAll, List.zip_cons_cons, List.filter_cons]
  rfl

/-- The accepted calls, made again on a registrar that differs in its parity status. -/
theorem Counting.registerAll_acceptedCalls {r : Registrar} (h : r.Counting) (ts : List Transition)
    (status : Option ParityStatus) :
    ((r.withStatus status).registerAll ((r.acceptedCalls ts).map Prod.fst)).2 =
        (r.acceptedCalls ts).map Prod.snd ∧
      ∃ status', ((r.withStatus status).registerAll ((r.acceptedCalls ts).map Prod.fst)).1 =
        (r.registerAll ts).1.withStatus status' := by
  induction ts generalizing r status with
  | nil => exact ⟨rfl, status, rfl⟩
  | cons t ts ih =>
    rw [acceptedCalls_cons, registerAll]
    cases hindex : acceptedIndex (r.register t).2 with
    | none =>
      -- the call is left out, and it has left no trace
      obtain ⟨status₁, h₁⟩ := h.register_of_none hindex
      have hrest := ih (h.withStatus status₁) status
      rw [← h₁] at hrest
      have hsame : (r.register t).1.withStatus status = r.withStatus status := by
        rw [h₁]
        rfl
      rw [hsame] at hrest
      exact hrest
    | some orderIndex =>
      obtain ⟨hresult, status₂, h₂⟩ := r.register_withStatus status t
      obtain ⟨hrest, status₃, h₃⟩ := ih (h.register t) status₂
      simp only [Option.isSome_some, if_true, List.map_cons, registerAll, h₂]
      refine ⟨?_, status₃, h₃⟩
      rw [hresult, hrest]

end Registrar

/-- A replay whose calls all return reports what they return. -/
theorem replayFrom_eq_ok (r : Registrar) (i : ℕ) {ts : List Transition}
    {results : List RegistrationResult} (h : (r.registerAll ts).2 = results.map .ok) :
    ∃ l, replayFrom r i ts = .ok l ∧ l.map ReplayResult.transition = ts ∧
      l.map ReplayResult.result = results ∧ ∀ e ∈ l, e.outcome = classify e.result := by
  induction ts generalizing r i results with
  | nil =>
    cases results with
    | nil => exact ⟨[], rfl, rfl, rfl, fun e he => (nomatch he)⟩
    | cons result results => cases h
  | cons t ts ih =>
    cases results with
    | nil => cases h
    | cons result results =>
      obtain ⟨hresult, hrest⟩ := List.cons.inj h
      obtain ⟨l, hl, hts, hresults, houtcome⟩ := ih (r.register t).1 (i + 1) hrest
      refine ⟨⟨i, t, result, classify result⟩ :: l, ?_, ?_, ?_, ?_⟩
      · rw [replayFrom, hresult, hl]
        rfl
      · rw [List.map_cons, hts]
      · rw [List.map_cons, hresults]
      · intro e he
        rcases List.mem_cons.mp he with rfl | he
        · rfl
        · exact houtcome e he

theorem exists_result_of_acceptedIndex {result : Except RegisterError RegistrationResult}
    (h : (acceptedIndex result).isSome) : ∃ a, result = .ok a ∧ classify a = .accepted := by
  unfold acceptedIndex at h
  split at h
  · exact ⟨_, rfl, rfl⟩
  · cases h

/-- Replaying only the accepted transitions accepts each of them with the same result, and ends
with the same snapshot and the same lineage of every id. -/
theorem replay_of_accepted (engine : Engine) (ts : List Transition) :
    let r := Registrar.new engine
    let accepted := r.acceptedCalls ts
    let replayed := r.registerAll (accepted.map Prod.fst)
    replayed.2 = accepted.map Prod.snd ∧
      (∃ report, replay (accepted.map Prod.fst) engine = .ok report ∧
        report.results.map (fun e => (e.transition, .ok e.result)) = accepted ∧
        ∀ e ∈ report.results, e.outcome = .accepted) ∧
      replayed.1.snapshot = (r.registerAll ts).1.snapshot ∧
      ∀ id, replayed.1.getLineage id = (r.registerAll ts).1.getLineage id := by
  intro r accepted replayed
  obtain ⟨hresults, status, hstate⟩ :=
    (Registrar.counting_new engine).registerAll_acceptedCalls ts none
  change replayed.2 = accepted.map Prod.snd at hresults
  change replayed.1 = _ at hstate
  refine ⟨hresults, ?_, ?_, fun id => ?_⟩
  · have haccepted : ∀ e ∈ accepted, ∃ a, e.2 = .ok a ∧ classify a = .accepted := fun e he =>
      exists_result_of_acceptedIndex (List.mem_filter.mp he).2
    have : Nonempty RegistrationResult := ⟨.rejected []⟩
    choose! f hf using haccepted
    have hok : accepted.map Prod.snd = (accepted.map f).map .ok := by
      rw [List.map_map]
      exact List.map_congr_left fun e he => (hf e he).1
    obtain ⟨l, hl, hts, hls, houtcome⟩ := replayFrom_eq_ok r 0 (hresults.trans hok)
    refine ⟨_, by rw [replay, hl]; rfl, ?_, fun e he => ?_⟩
    · calc l.map (fun e => (e.transition, (.ok e.result : Except RegisterError _)))
          = (l.map ReplayResult.transition).zipWith (fun t a => (t, .ok a))
              (l.map ReplayResult.result) := by rw [List.zipWith_map, List.zipWith_self]
        _ = accepted.map fun e => (e.1, .ok (f e)) := by
            rw [hts, hls, List.zipWith_map, List.zipWith_self]
        _ = accepted.map id := List.map_congr_left fun e he => by rw [← (hf e he).1]; rfl
        _ = accepted := List.map_id _
    · have hmem := hls ▸ List.mem_map_of_mem (f := ReplayResult.result) he
      obtain ⟨a, ha, hresult⟩ := List.mem_map.mp hmem
      rw [houtcome e he, ← hresult]
      exact (hf a ha).2
  · rw [hstate, Registrar.snapshot_withStatus]
  · rw [hstate, Registrar.getLineage_withStatus]

end Attestia.Registrum
