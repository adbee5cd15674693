import Attestia.EventStore.Types
import Attestia.Lib.JsMap
import Mathlib.Data.List.Sort

/-!
# Snapshots in files

`snapshot-store.ts`: the snapshots of a stream are files named by their versions. The file with the
highest version is the one that is loaded, also where it is corrupt and an older one is not.
-/

namespace Attestia.EventStore

open Lib JsonNumber

/-- The files of a stream by their versions. A file whose text does not parse, or whose hash is not
that of its state, gives nothing. -/
abbrev SnapshotStream (σ : Type) := JsMap ℚ (Option σ)

/-- How saving a snapshot ends; one that throws may have put the file in its place. -/
inductive SaveOutcome where
  | saved
  | failed (stored : Bool) (error : JsError)

namespace SnapshotStream

variable {σ : Type} (s : SnapshotStream σ)

/-- The names that `_listVersions` finds are digits. -/
def isListed (version : ℚ) : Bool := (numberText version).all Char.isDigit

def listVersions : List ℚ := (s.keys.filter isListed).insertionSort (· ≤ ·)

def load : Option (ℚ × σ) :=
  s.listVersions.getLast?.bind fun version => (s.get? version).join.map fun state => (version, state)

def prune (keep : ℕ) : SnapshotStream σ :=
  let versions := s.listVersions
  s.filterKeys fun version => version ∉ versions.take (versions.length - keep)

def save (keep : ℕ) (version : ℚ) (state : σ) : SaveOutcome → SnapshotStream σ × Except JsError Unit
  | .saved => (prune (s.set version (some state)) keep, .ok ())
  | .failed stored error => (if stored then s.set version (some state) else s, .error error)

end SnapshotStream

end Attestia.EventStore
