import Attestia.Lib.System
import Mathlib.Logic.Function.Basic

/-!
# The append lockfile

`_acquireLock`, `_tryBreakStaleLock` and `_releaseLock` of `jsonl-store.ts` as the steps of
one process among any number of them on one host. A process is named by its PID; it can
crash at any step and its PID can be taken again. Creating with `O_EXCL`, reading and
unlinking are single steps; a file written through a descriptor is found again by its inode.
-/

namespace Attestia.EventStore
open Lib Function

namespace Lockfile

/-- The lockfile on disk: its inode and the PID written into it, if it has been written. -/
structure LockFile where
  inode : ℕ
  pid : Option ℕ
  deriving DecidableEq, Repr

/-- Where a process stands; `broke` is `brokeStaleLock`. -/
inductive Pc where
  | idle
  /-- about to `openSync` with `O_CREAT | O_EXCL` -/
  | trying (broke : Bool)
  /-- the file exists under `inode`, the PID is not written yet -/
  | created (inode : ℕ)
  /-- the PID is written, `_acquireLock` is about to return -/
  | written (inode : ℕ)
  /-- between the return of `_acquireLock` and the unlink of `_releaseLock` -/
  | held (inode : ℕ)
  /-- the create failed with `EEXIST` -/
  | eexist (broke : Bool)
  /-- read this PID from the lockfile, about to probe it -/
  | probing (pid : ℕ)
  /-- the probed PID was dead, about to unlink -/
  | unlinking
  /-- at the deadline check -/
  | waiting (broke : Bool)
  deriving DecidableEq, Repr

structure State where
  file : Option LockFile
  nextInode : ℕ
  pc : ℕ → Pc
  alive : ℕ → Bool

inductive Action where
  /-- an append reaches `_acquireLock` -/
  | acquire
  /-- the next statement of the process -/
  | step
  /-- the deadline has passed: `LOCK_TIMEOUT` is thrown -/
  | timeout
  /-- `openSync` or the write of the PID fails with another error, which is thrown -/
  | ioError
  | crash
  /-- a process with this PID starts -/
  | start
  deriving DecidableEq, Repr

abbrev Label := ℕ × Action

/-- `_readLockPid`: the PID in the file, unless it is missing, empty or not positive. -/
def readLockPid (file : Option LockFile) : Option ℕ :=
  (file.bind LockFile.pid).filter (0 < ·)

def State.goto (s : State) (p : ℕ) (pc : Pc) : State := { s with pc := update s.pc p pc }

/-- One statement of `_acquireLock`, `_tryBreakStaleLock` or `_releaseLock`. -/
def advance (s : State) (p : ℕ) : Option State :=
  match s.pc p with
  | .idle => none
  | .trying broke =>
    match s.file with
    | none =>
      some { s.goto p (.created s.nextInode) with
        file := some ⟨s.nextInode, none⟩, nextInode := s.nextInode + 1 }
    | some _ => some (s.goto p (.eexist broke))
  | .created inode =>
    -- the write goes to the descriptor: it shows on disk only if the path still names that inode
    let file := s.file.map fun f => if f.inode = inode then { f with pid := some p } else f
    some { s.goto p (.written inode) with file }
  | .written inode => some (s.goto p (.held inode))
  | .held _ => some { s.goto p .idle with file := none }
  | .eexist true => some (s.goto p (.waiting true))
  | .eexist false =>
    match readLockPid s.file with
    | none => some (s.goto p (.waiting false))
    | some pid => some (s.goto p (if pid = p then .waiting false else .probing pid))
  | .probing pid => some (s.goto p (if s.alive pid then .waiting false else .unlinking))
  | .unlinking => some { s.goto p (.trying true) with file := none }
  | .waiting broke => some (s.goto p (.trying broke))

def next (s : State) : Label → Option State
  | (p, .start) => if s.alive p then none
      else some { s.goto p .idle with alive := update s.alive p true }
  | (p, .crash) => if s.alive p then some { s with alive := update s.alive p false } else none
  | (p, .step) => if s.alive p then advance s p else none
  | (p, .acquire) =>
    if s.alive p ∧ s.pc p = .idle then some (s.goto p (.trying false)) else none
  | (p, .timeout) =>
    match s.pc p with
    | .waiting _ => if s.alive p then some (s.goto p .idle) else none
    | _ => none
  | (p, .ioError) =>
    match s.pc p with
    | .trying _ | .created _ | .written _ => if s.alive p then some (s.goto p .idle) else none
    | _ => none

def initial : State := ⟨none, 0, fun _ => .idle, fun _ => false⟩

def system : System State Label := ⟨(· = initial), next⟩

/-- `p` is a live process between a successful `_acquireLock` and its `_releaseLock`. -/
def State.Holds (s : State) (p : ℕ) : Prop := s.alive p = true ∧ ∃ inode, s.pc p = .held inode

def MutualExclusion (s : State) : Prop := ∀ p q, s.Holds p → s.Holds q → p = q

/-! ## The stale-lock break -/

/-- The inode of the lockfile a process has created and not yet released. -/
def Pc.inode? : Pc → Option ℕ
  | .created inode | .written inode | .held inode => some inode
  | _ => none

def State.lock? (s : State) (p : ℕ) : Option ℕ := if s.alive p then (s.pc p).inode? else none

/-- The lockfile on disk is one that a live process has created and not yet released. -/
def State.LiveLock (s : State) : Prop := ∃ p f, s.file = some f ∧ s.lock? p = some f.inode

/-- The unlink of a stale-lock break does not hit the lockfile of a live process. -/
def BreaksOnlyStale (s : State) (l : Label) : Prop :=
  l.2 = .step → s.pc l.1 = .unlinking → ¬ s.LiveLock

/-- The lockfile on disk is that of the only live process that has one. -/
structure Inv (s : State) : Prop where
  onDisk : ∀ p i, s.lock? p = some i → s.file.map LockFile.inode = some i
  unique : ∀ p q i j, s.lock? p = some i → s.lock? q = some j → p = q

theorem lock?_goto_self (s : State) (p : ℕ) (pc : Pc) :
    (s.goto p pc).lock? p = if s.alive p then pc.inode? else none := by
  simp [State.lock?, State.goto]

theorem lock?_goto_ne (s : State) {p q : ℕ} (pc : Pc) (h : q ≠ p) :
    (s.goto p pc).lock? q = s.lock? q := by
  simp [State.lock?, State.goto, h]

theorem lock?_eq_of_alive {s : State} {p : ℕ} (h : s.alive p = true) :
    s.lock? p = (s.pc p).inode? := by
  simp [State.lock?, h]

/-- The file stays and no process gains one. -/
theorem Inv.of_le {s s' : State} (hi : Inv s)
    (hfile : s'.file.map LockFile.inode = s.file.map LockFile.inode)
    (h : ∀ q i, s'.lock? q = some i → s.lock? q = some i) : Inv s' where
  onDisk p i hp := hfile.trans (hi.onDisk p i (h p i hp))
  unique p q i j hp hq := hi.unique p q i j (h p i hp) (h q j hq)

theorem Inv.of_none {s : State} (h : ∀ q, s.lock? q = none) : Inv s where
  onDisk p i hp := by simp [h p] at hp
  unique p q i j hp := by simp [h p] at hp

theorem Inv.goto {s : State} {p : ℕ} {pc : Pc} (hi : Inv s)
    (h : ∀ i, pc.inode? = some i → (s.pc p).inode? = some i) : Inv (s.goto p pc) := by
  refine hi.of_le (by rfl) fun q i hq => ?_
  by_cases hqp : q = p
  · subst q
    rw [lock?_goto_self] at hq
    cases ha : s.alive p <;> simp only [ha, if_true, if_false, reduceCtorEq] at hq
    rw [lock?_eq_of_alive ha, h i hq]
  · rwa [lock?_goto_ne s pc hqp] at hq

/-- With no lockfile on disk no live process has one. -/
theorem Inv.lock?_eq_none {s : State} (hi : Inv s) (hf : s.file = none) (q : ℕ) :
    s.lock? q = none := by
  cases hq : s.lock? q with
  | none => rfl
  | some i => simpa [hf] using hi.onDisk q i hq

theorem Inv.advance {s s' : State} {p : ℕ} (hi : Inv s) (ha : s.alive p = true)
    (hok : BreaksOnlyStale s (p, .step)) (h : advance s p = some s') : Inv s' := by
  have hp := lock?_eq_of_alive ha
  unfold Lockfile.advance at h
  split at h
  · cases h
  · -- the exclusive create
    split at h
    · next hf =>
      obtain rfl := Option.some.inj h
      have hnone := hi.lock?_eq_none hf
      have hother : ∀ q, q ≠ p → (s.goto p (.created s.nextInode)).lock? q = none :=
        fun q hq => (lock?_goto_ne s _ hq).trans (hnone q)
      have hself : (s.goto p (.created s.nextInode)).lock? p = some s.nextInode := by
        rw [lock?_goto_self, if_pos ha]
        rfl
      refine ⟨fun q i hq => ?_, fun q r i j hq hr => ?_⟩
      · by_cases hqp : q = p
        · subst q
          exact hself.symm.trans hq
        · exact absurd ((hother q hqp).symm.trans hq) nofun
      · have hqp : q = p := by_contra fun hqp => absurd ((hother q hqp).symm.trans hq) nofun
        have hrp : r = p := by_contra fun hrp => absurd ((hother r hrp).symm.trans hr) nofun
        exact hqp.trans hrp.symm
    · obtain rfl := Option.some.inj h
      exact hi.goto (by simp [Pc.inode?])
  · next inode hpc =>
    obtain rfl := Option.some.inj h
    have hg : Inv (s.goto p (.written inode)) := hi.goto (by simp [Pc.inode?, hpc])
    refine hg.of_le ?_ fun q i hq => hq
    cases hf : s.file with
    | none => simp [State.goto, hf]
    | some f =>
      by_cases hfi : f.inode = inode <;> simp [State.goto, hf, hfi]
  · next inode hpc =>
    obtain rfl := Option.some.inj h
    exact hi.goto (by simp [Pc.inode?, hpc])
  · -- the release: the process that holds the lock is the only one
    next inode hpc =>
    obtain rfl := Option.some.inj h
    apply Inv.of_none
    intro q
    by_cases hqp : q = p
    · subst q
      exact (lock?_goto_self s p .idle).trans (by simp [Pc.inode?])
    · have hq : s.lock? q = none := by
        cases hq : s.lock? q with
        | none => rfl
        | some i => exact absurd (hi.unique q p i inode hq (by simp [hp, hpc, Pc.inode?])) hqp
      exact (lock?_goto_ne s .idle hqp).trans hq
  · obtain rfl := Option.some.inj h
    exact hi.goto (by simp [Pc.inode?])
  · split at h <;> obtain rfl := Option.some.inj h
    · exact hi.goto (by simp [Pc.inode?])
    · exact hi.goto (by split <;> simp [Pc.inode?])
  · obtain rfl := Option.some.inj h
    exact hi.goto (by split <;> simp [Pc.inode?])
  · -- the break: by assumption the file on disk is nobody's
    next hpc =>
    obtain rfl := Option.some.inj h
    apply Inv.of_none
    intro q
    by_cases hqp : q = p
    · subst q
      exact (lock?_goto_self s p (.trying true)).trans (by simp [Pc.inode?])
    · refine (lock?_goto_ne s (.trying true) hqp).trans ?_
      cases hq : s.lock? q with
      | none => rfl
      | some i =>
        obtain ⟨f, hf, hfi⟩ := Option.map_eq_some_iff.mp (hi.onDisk q i hq)
        exact absurd ⟨q, f, hf, hfi ▸ hq⟩ (hok rfl hpc)
  · obtain rfl := Option.some.inj h
    exact hi.goto (by simp [Pc.inode?])

theorem Inv.next {s s' : State} {l : Label} (hi : Inv s) (hok : BreaksOnlyStale s l)
    (h : next s l = some s') : Inv s' := by
  obtain ⟨p, a⟩ := l
  cases a with
  | start =>
    simp only [Lockfile.next, Option.ite_none_left_eq_some] at h
    obtain ⟨-, h⟩ := h
    obtain rfl := Option.some.inj h
    refine hi.of_le (by rfl) fun q i hq => ?_
    by_cases hqp : q = p
    · subst q
      simp [State.lock?, State.goto, Pc.inode?] at hq
    · simpa [State.lock?, State.goto, hqp] using hq
  | crash =>
    simp only [Lockfile.next, Option.ite_none_right_eq_some] at h
    obtain ⟨-, h⟩ := h
    obtain rfl := Option.some.inj h
    refine hi.of_le (by rfl) fun q i hq => ?_
    by_cases hqp : q = p
    · subst q
      simp [State.lock?] at hq
    · simpa [State.lock?, hqp] using hq
  | step =>
    simp only [Lockfile.next, Option.ite_none_right_eq_some] at h
    exact hi.advance h.1 hok h.2
  | acquire =>
    simp only [Lockfile.next, Option.ite_none_right_eq_some] at h
    obtain ⟨-, h⟩ := h
    obtain rfl := Option.some.inj h
    exact hi.goto (by simp [Pc.inode?])
  | timeout =>
    simp only [Lockfile.next] at h
    split at h
    · simp only [Option.ite_none_right_eq_some] at h
      obtain ⟨-, h⟩ := h
      obtain rfl := Option.some.inj h
      exact hi.goto (by simp [Pc.inode?])
    · cases h
  | ioError =>
    simp only [Lockfile.next] at h
    split at h
    all_goals try cases h
    all_goals
      simp only [Option.ite_none_right_eq_some] at h
      obtain ⟨-, h⟩ := h
      obtain rfl := Option.some.inj h
      exact hi.goto (by simp [Pc.inode?])

theorem Inv.mutualExclusion {s : State} (hi : Inv s) : MutualExclusion s := by
  rintro p q ⟨hp, i, hpi⟩ ⟨hq, j, hqj⟩
  apply hi.unique p q i j
  · rw [lock?_eq_of_alive hp, hpi]
    rfl
  · rw [lock?_eq_of_alive hq, hqj]
    rfl

theorem inv_of_reachableVia {s : State} (hs : system.ReachableVia BreaksOnlyStale s) : Inv s := by
  refine hs.invariant ?_ fun _ _ _ hi hok h => hi.next hok h
  rintro s rfl
  exact Inv.of_none fun q => rfl

/-- As long as no stale-lock break unlinks the lockfile of a live process, at most one live
process is between `_acquireLock` and `_releaseLock`. -/
theorem mutualExclusion_of_breaksOnlyStale (s : State)
    (hs : system.ReachableVia BreaksOnlyStale s) : MutualExclusion s :=
  (inv_of_reachableVia hs).mutualExclusion

/-- Process 2 breaks the lock that process 1 left when it crashed, and holds it alone. -/
theorem mutualExclusion_of_stale_break :
    ∃ s, system.run initial [(1, .start), (1, .acquire), (1, .step), (1, .step), (1, .crash),
      (2, .start), (2, .acquire), (2, .step), (2, .step), (2, .step), (2, .step), (2, .step),
      (2, .step), (2, .step)] = some s ∧ s.Holds 2 ∧ MutualExclusion s := by
  have hstep : ∀ {s s' : State} {l : Label}, system.ReachableVia BreaksOnlyStale s →
      s.pc l.1 ≠ .unlinking → system.next s l = some s' →
      system.ReachableVia BreaksOnlyStale s' :=
    fun hs hpc h => hs.step (fun _ h' => absurd h' hpc) h
  have h := hstep (l := (1, .start)) (.init (S := system) rfl) (by decide) rfl
  replace h := hstep (l := (1, .acquire)) h (by decide) rfl
  replace h := hstep (l := (1, .step)) h (by decide) rfl
  replace h := hstep (l := (1, .step)) h (by decide) rfl
  replace h := hstep (l := (1, .crash)) h (by decide) rfl
  replace h := hstep (l := (2, .start)) h (by decide) rfl
  replace h := hstep (l := (2, .acquire)) h (by decide) rfl
  replace h := hstep (l := (2, .step)) h (by decide) rfl
  replace h := hstep (l := (2, .step)) h (by decide) rfl
  replace h := hstep (l := (2, .step)) h (by decide) rfl
  -- only process 2 is alive when it unlinks, and it has no lockfile of its own
  replace h := h.step (e := (2, .step)) (by
    rintro - - ⟨p, f, -, hl⟩
    by_cases hp : p = 2
    · subst p
      simp [State.lock?, State.goto, Pc.inode?] at hl
    · simp [State.lock?, State.goto, hp, initial] at hl) rfl
  replace h := hstep (l := (2, .step)) h (by decide) rfl
  replace h := hstep (l := (2, .step)) h (by decide) rfl
  replace h := hstep (l := (2, .step)) h (by decide) rfl
  exact ⟨_, rfl, ⟨rfl, 1, rfl⟩, mutualExclusion_of_breaksOnlyStale _ h⟩

/-- The condition is exact: from a step that breaks a live lock, two processes go on to hold it. -/
theorem exists_run_two_holders {s : State} {q : ℕ} (hq : s.alive q = true)
    (hpc : s.pc q = .unlinking) (hlive : s.LiveLock) :
    ∃ es s', system.run s ((q, .step) :: es) = some s' ∧ ¬ MutualExclusion s' := by
  obtain ⟨p, f, -, hlock⟩ := hlive
  have hp : s.alive p = true := by
    by_contra hp
    simp [State.lock?, hp] at hlock
  rw [lock?_eq_of_alive hp] at hlock
  have hpq : p ≠ q := by
    rintro rfl
    simp [hpc, Pc.inode?] at hlock
  -- the breaker unlinks and takes the lock, then the owner returns from its own acquire
  have htwo : ∀ (t : State) (i j : ℕ), t.alive p = true → t.alive q = true → t.pc p = .held i →
      t.pc q = .held j → ¬ MutualExclusion t :=
    fun t i j hp hq hpi hqj hme => hpq (hme p q ⟨hp, i, hpi⟩ ⟨hq, j, hqj⟩)
  obtain ⟨i, hc | hc | hc⟩ : ∃ i, s.pc p = .created i ∨ s.pc p = .written i ∨ s.pc p = .held i := by
    cases hc : s.pc p <;> simp_all [Pc.inode?]
  · exact ⟨[(q, .step), (q, .step), (q, .step), (p, .step), (p, .step)], _,
      by simp [System.run, system, next, advance, State.goto, hq, hpc, hp, hpq, hc]; rfl,
      htwo _ i s.nextInode (by simp [hp]) (by simp [hq]) (by simp) (by simp [hpq.symm])⟩
  · exact ⟨[(q, .step), (q, .step), (q, .step), (p, .step)], _,
      by simp [System.run, system, next, advance, State.goto, hq, hpc, hp, hpq, hc]; rfl,
      htwo _ i s.nextInode (by simp [hp]) (by simp [hq]) (by simp) (by simp [hpq.symm])⟩
  · exact ⟨[(q, .step), (q, .step), (q, .step)], _,
      by simp [System.run, system, next, advance, State.goto, hq, hpc]; rfl,
      htwo _ i s.nextInode (by simp [hp]) (by simp [hq]) (by simp [hpq, hc]) (by simp)⟩

/-- Process 1 crashes with the lock; 2 and 3 both find it stale; 2 breaks it and takes the lock,
then 3 unlinks the lock of 2 and takes it too. -/
def twoBreakers : List Label :=
  [(1, .start), (1, .acquire), (1, .step), (1, .step), (1, .crash),
    (2, .start), (2, .acquire), (2, .step), (2, .step), (2, .step),
    (3, .start), (3, .acquire), (3, .step), (3, .step), (3, .step),
    (2, .step), (2, .step), (2, .step), (2, .step),
    (3, .step), (3, .step), (3, .step), (3, .step)]

theorem not_mutualExclusion : ¬ ∀ s, system.Reachable s → MutualExclusion s := by
  intro h
  obtain ⟨s, hs, hpc⟩ : ∃ s, system.run initial twoBreakers = some s ∧
      (s.alive 2, s.pc 2, s.alive 3, s.pc 3) = (true, .held 1, true, .held 2) :=
    ⟨_, rfl, rfl⟩
  obtain ⟨h2, hpc2, h3, hpc3⟩ : s.alive 2 = true ∧ s.pc 2 = .held 1 ∧ s.alive 3 = true ∧
      s.pc 3 = .held 2 := by simpa using hpc
  have hreach : system.Reachable s := System.Reachable.run (.init rfl) hs
  exact absurd (h s hreach 2 3 ⟨h2, 1, hpc2⟩ ⟨h3, 2, hpc3⟩) (by decide)

end Lockfile

end Attestia.EventStore
