import Attestia.EventStore.Snapshots

/-!
# The two snapshot stores agree

The directory of a stream mirrors its array: the file names parse back to the versions of the array,
in whatever order they are read, and each file holds its snapshot. Every call keeps this, and both
stores answer it in the same way.
-/

namespace Attestia.EventStore

open Lib JsonNumber DecimalText

/-! ## Arrays -/

def SortedByVersion (snapshots : List StoredSnapshot) : Prop :=
  snapshots.Pairwise fun s t => s.version < t.version

namespace InMemorySnapshotStore

variable {x s : StoredSnapshot} {snapshots : List StoredSnapshot}

theorem insertSorted_of_forall (h : ∀ s ∈ snapshots, x.version < s.version) :
    insertSorted x snapshots = x :: snapshots := by
  cases snapshots with
  | nil => rfl
  | cons s snapshots =>
    rw [insertSorted, List.findIdx?_cons, if_pos (decide_eq_true (h s (.head _)))]
    rfl

theorem place_cons (h : SortedByVersion (s :: snapshots)) :
    place x (s :: snapshots) =
      if s.version < x.version then s :: place x snapshots
      else if s.version = x.version then x :: snapshots else x :: s :: snapshots := by
  obtain ⟨hs, -⟩ := List.pairwise_cons.mp h
  split
  · rename_i hlt
    rw [place, List.eraseP_cons_of_neg (by simpa using hlt.ne), insertSorted, List.findIdx?_cons,
      if_neg (by simpa using hlt.le), place, insertSorted]
    rcases List.findIdx? _ _ with _ | i <;> rfl
  · rename_i hge
    split
    · rename_i heq
      rw [place, List.eraseP_cons_of_pos (by simpa using heq)]
      apply insertSorted_of_forall
      intro t ht
      exact heq ▸ hs t ht
    · rename_i hne
      have hgt : x.version < s.version := by omega
      rw [place, List.eraseP_of_forall_not, insertSorted_of_forall]
      · intro t ht
        rcases List.mem_cons.mp ht with rfl | ht
        · exact hgt
        · exact hgt.trans (hs t ht)
      · intro t ht
        rcases List.mem_cons.mp ht with rfl | ht
        · simpa using hne
        · have := hs t ht
          simpa using (by omega : t.version ≠ x.version)

/-- The snapshot and those of other versions. -/
theorem mem_place (h : SortedByVersion snapshots) :
    s ∈ place x snapshots ↔ s = x ∨ s ∈ snapshots ∧ s.version ≠ x.version := by
  induction snapshots with
  | nil => simp [place, insertSorted]
  | cons t snapshots ih =>
    obtain ⟨ht, hsorted⟩ := List.pairwise_cons.mp h
    rw [place_cons h]
    split
    · rename_i hlt
      rw [List.mem_cons, ih hsorted, List.mem_cons]
      constructor
      · rintro (rfl | rfl | hs)
        · exact .inr ⟨.inl rfl, hlt.ne⟩
        · exact .inl rfl
        · exact .inr ⟨.inr hs.1, hs.2⟩
      · rintro (rfl | ⟨rfl | hs, hne⟩)
        · exact .inr (.inl rfl)
        · exact .inl rfl
        · exact .inr (.inr ⟨hs, hne⟩)
    · rename_i hge
      have hgreater : ∀ u ∈ snapshots, u.version ≠ x.version := by
        intro u hu
        have := ht u hu
        omega
      split
      · rename_i heq
        rw [List.mem_cons, List.mem_cons]
        constructor
        · rintro (rfl | hs)
          · exact .inl rfl
          · exact .inr ⟨.inr hs, hgreater s hs⟩
        · rintro (rfl | ⟨rfl | hs, hne⟩)
          · exact .inl rfl
          · exact absurd heq hne
          · exact .inr hs
      · rename_i hne
        rw [List.mem_cons, List.mem_cons]
        constructor
        · rintro (rfl | rfl | hs)
          · exact .inl rfl
          · exact .inr ⟨.inl rfl, hne⟩
          · exact .inr ⟨.inr hs, hgreater s hs⟩
        · rintro (rfl | ⟨hs, -⟩)
          · exact .inl rfl
          · exact .inr hs

theorem sorted_place (h : SortedByVersion snapshots) : SortedByVersion (place x snapshots) := by
  induction snapshots with
  | nil => exact List.pairwise_singleton _ _
  | cons t snapshots ih =>
    obtain ⟨ht, hsorted⟩ := List.pairwise_cons.mp h
    rw [place_cons h]
    split
    · rename_i hlt
      refine List.pairwise_cons.mpr ⟨fun s hs => ?_, ih hsorted⟩
      rcases (mem_place hsorted).mp hs with rfl | hs
      · exact hlt
      · exact ht s hs.1
    · split
      · rename_i heq
        exact List.pairwise_cons.mpr ⟨fun s hs => heq ▸ ht s hs, hsorted⟩
      · refine List.pairwise_cons.mpr ⟨fun s hs => ?_, h⟩
        rcases List.mem_cons.mp hs with rfl | hs
        · omega
        · have := ht s hs
          omega

end InMemorySnapshotStore

/-! ## Names of files -/

namespace FileSnapshotStore

theorem lt_of_safe {version : ℕ} (h : version < 2 ^ 53) : version < 10 ^ 21 :=
  h.trans (by norm_num)

theorem versionOfName_snapshotName {version : ℕ} (h : version < 2 ^ 53) :
    versionOfName (snapshotName version) = some version := by
  have hname : snapshotName version = natDigits version ++ js ".json" :=
    congrArg (JsString.units · ++ js ".json") (numberText_natCast (lt_of_safe h))
  have hdigits : (snapshotName version).takeWhile isDigit = natDigits version := by
    rw [hname, List.takeWhile_append_of_pos fun u hu => isDigit_of_mem_natDigits hu]
    have hdot : (js ".json").takeWhile isDigit = [] := by decide +kernel
    rw [hdot, List.append_nil]
  rw [versionOfName, hdigits, hname, List.drop_left, if_pos ⟨natDigits_ne_nil version, rfl⟩, digitsNat_natDigits]

theorem snapshotName_inj {v w : ℕ} (hv : v < 2 ^ 53) (hw : w < 2 ^ 53)
    (h : snapshotName v = snapshotName w) : v = w := by
  have hsome := versionOfName_snapshotName hv
  rw [h, versionOfName_snapshotName hw] at hsome
  exact (Option.some.inj hsome).symm

end FileSnapshotStore

/-! ## Directories -/

/-- The file of a snapshot, whenever it was saved. -/
def SameSnapshot (s : StoredSnapshot) (file : JsonValue) : Prop :=
  ∃ createdAt, file = StoredSnapshot.file { s with createdAt := createdAt }

variable (canonicalize : JsonValue → String)

/-- A directory with a file for each snapshot of a sorted array, and no others. -/
structure Mirrors (snapshots : List StoredSnapshot) (dir : Directory) : Prop where
  sorted : SortedByVersion snapshots
  safe : ∀ s ∈ snapshots, s.version < 2 ^ 53
  hashed : ∀ s ∈ snapshots, verifySnapshotIntegrity canonicalize s.stateHash s.state = true
  stored : ∀ s ∈ snapshots, ∃ file, dir.get? (FileSnapshotStore.snapshotName s.version) = some file ∧
    SameSnapshot s file
  named : ∀ name ∈ dir.keys, ∃ s ∈ snapshots, name = FileSnapshotStore.snapshotName s.version

variable {canonicalize} {snapshots : List StoredSnapshot} {dir : Directory}

theorem mirrors_nil : Mirrors canonicalize [] .empty :=
  ⟨List.Pairwise.nil, by simp, by simp, by simp, fun _ h => absurd h List.not_mem_nil⟩

open FileSnapshotStore

theorem Mirrors.mem_keys (h : Mirrors canonicalize snapshots dir) {name : JsString} :
    name ∈ dir.keys ↔ ∃ s ∈ snapshots, name = snapshotName s.version := by
  constructor
  · exact h.named name
  · rintro ⟨s, hs, rfl⟩
    obtain ⟨file, hfile, -⟩ := h.stored s hs
    exact JsMap.mem_keys.mpr ⟨file, hfile⟩

/-- The versions that are read off the names are those of the array, in its order. -/
theorem Mirrors.versionsIn_eq (h : Mirrors canonicalize snapshots dir) :
    versionsIn dir = snapshots.map StoredSnapshot.version := by
  have hparsed : (snapshots.map fun s => snapshotName s.version).filterMap versionOfName =
      snapshots.map StoredSnapshot.version := by
    rw [List.filterMap_map, ← List.filterMap_eq_map]
    apply List.filterMap_congr
    intro s hs
    exact versionOfName_snapshotName (h.safe s hs)
  have hnames : (snapshots.map fun s => snapshotName s.version).Nodup := by
    apply List.pairwise_map.mpr
    refine h.sorted.imp_of_mem fun {s t} hs ht hlt heq => ?_
    exact hlt.ne (snapshotName_inj (h.safe s hs) (h.safe t ht) heq)
  have hperm : dir.keys.Perm (snapshots.map fun s => snapshotName s.version) := by
    apply (List.perm_ext_iff_of_nodup dir.nodup hnames).mpr
    intro name
    show name ∈ dir.keys ↔ _
    rw [h.mem_keys, List.mem_map]
    exact exists_congr fun s => and_congr_right fun _ => eq_comm
  have hversions := hperm.filterMap versionOfName
  rw [hparsed] at hversions
  rw [versionsIn]
  have hsorted : (snapshots.map StoredSnapshot.version).Pairwise (· ≤ ·) :=
    List.pairwise_map.mpr (h.sorted.imp Nat.le_of_lt)
  exact ((List.perm_insertionSort (· ≤ ·) _).trans hversions).eq_of_pairwise
    (fun _ _ _ _ => le_antisymm) (List.pairwise_insertionSort (· ≤ ·) _) hsorted

/-! ## Reading -/

theorem sha256Hex_ne_nil (m : JsString) : sha256Hex m ≠ [] := by
  obtain ⟨digest, hlength, hdigest⟩ : ∃ digest : Bytes, digest.length = 32 ∧
      sha256Hex m = js (hexEncode digest) := ⟨_, sha256_length _, rfl⟩
  intro h
  rw [hdigest] at h
  have htext : hexEncode digest = "" := js_injective h
  have hdigits := hexEncode_length digest
  rw [htext, hlength] at hdigits
  cases hdigits

theorem verify_takeSnapshot (streamId : JsString) (version : ℕ) (state : JsonValue)
    (createdAt : JsString) :
    verifySnapshotIntegrity canonicalize
      (takeSnapshot canonicalize streamId version state createdAt).stateHash state = true := by
  have hne : computeSnapshotHash canonicalize state ≠ [] := by
    rw [computeSnapshotHash]
    exact sha256Hex_ne_nil _
  simp only [takeSnapshot, verifySnapshotIntegrity, ne_eq, hne, not_false_eq_true, and_self,
    decide_true]

theorem getters_file (s : StoredSnapshot) :
    s.file.get? (js "streamId") = some (.str s.streamId) ∧
    s.file.get? (js "version") = some (.num (.ofNat s.version)) ∧
    s.file.get? (js "state") = some s.state ∧
    s.file.get? (js "stateHash") = some (.str s.stateHash) := by
  simp [StoredSnapshot.file]

/-- A file of a snapshot with the hash of its state is read back. -/
theorem readSnapshot_of_get? {store : FileSnapshotStore} {streamId : JsString} {s : StoredSnapshot}
    {file : JsonValue} (hfile : (store.dirOf streamId).get? (snapshotName s.version) = some file)
    (hsame : SameSnapshot s file)
    (hhashed : verifySnapshotIntegrity canonicalize s.stateHash s.state = true) :
    store.readSnapshot canonicalize streamId s.version = some file := by
  obtain ⟨createdAt, rfl⟩ := hsame
  obtain ⟨hid, hversion, hstate, hhash⟩ := getters_file { s with createdAt := createdAt }
  rw [readSnapshot, hfile]
  simp only [Option.bind_eq_bind, Option.bind_some, hid, hversion, hstate, hhash]
  show (if isNumber (.num (.ofNat s.version)) && (!store.verifyOnLoad ||
    verifySnapshotIntegrity canonicalize s.stateHash s.state) then _ else _) = _
  rw [hhashed, Bool.or_true]
  rfl

/-! ## Writing -/

theorem Mirrors.save (h : Mirrors canonicalize snapshots dir) {streamId : JsString} {version : ℕ}
    (hsafe : version < 2 ^ 53) (state : JsonValue) (now now' : JsString) :
    Mirrors canonicalize
      (InMemorySnapshotStore.place (takeSnapshot canonicalize streamId version state now) snapshots)
      (dir.set (snapshotName version)
        (takeSnapshot canonicalize streamId version state now').file) where
  sorted := InMemorySnapshotStore.sorted_place h.sorted
  safe s hs := by
    rcases (InMemorySnapshotStore.mem_place h.sorted).mp hs with rfl | hs
    · exact hsafe
    · exact h.safe s hs.1
  hashed s hs := by
    rcases (InMemorySnapshotStore.mem_place h.sorted).mp hs with rfl | hs
    · exact verify_takeSnapshot streamId version state now
    · exact h.hashed s hs.1
  stored s hs := by
    rcases (InMemorySnapshotStore.mem_place h.sorted).mp hs with rfl | hs
    · exact ⟨_, JsMap.get?_set_self _ _ _, now', rfl⟩
    · have hname : snapshotName version ≠ snapshotName s.version := fun heq =>
        hs.2 (snapshotName_inj hsafe (h.safe s hs.1) heq).symm
      rw [JsMap.get?_set_of_ne _ _ hname]
      exact h.stored s hs.1
  named name hname := by
    by_cases hnew : name = snapshotName version
    · exact ⟨_, (InMemorySnapshotStore.mem_place h.sorted).mpr (.inl rfl), hnew⟩
    · obtain ⟨s, hs, rfl⟩ := h.named name ((JsMap.mem_keys_set.mp hname).resolve_left hnew)
      have hversion : s.version ≠ version := fun heq => hnew (heq ▸ rfl)
      exact ⟨s, (InMemorySnapshotStore.mem_place h.sorted).mpr (.inr ⟨hs, hversion⟩), rfl⟩

theorem Mirrors.tail {s : StoredSnapshot} (h : Mirrors canonicalize (s :: snapshots) dir) :
    Mirrors canonicalize snapshots (dir.erase (snapshotName s.version)) := by
  obtain ⟨hs, hsorted⟩ := List.pairwise_cons.mp h.sorted
  refine ⟨hsorted, fun t ht => h.safe t (.tail _ ht), fun t ht => h.hashed t (.tail _ ht), ?_, ?_⟩
  · intro t ht
    have hne : snapshotName t.version ≠ snapshotName s.version := fun heq =>
      (hs t ht).ne' (snapshotName_inj (h.safe t (.tail _ ht)) (h.safe s (.head _)) heq)
    rw [JsMap.get?_erase, if_neg hne]
    exact h.stored t (.tail _ ht)
  · intro name hname
    obtain ⟨file, hfile⟩ := JsMap.mem_keys.mp hname
    rw [JsMap.get?_erase, Option.ite_none_left_eq_some] at hfile
    obtain ⟨t, ht, rfl⟩ := h.named name (JsMap.mem_keys.mpr ⟨file, hfile.2⟩)
    rcases List.mem_cons.mp ht with rfl | ht
    · exact absurd rfl hfile.1
    · exact ⟨t, ht, rfl⟩

/-- Removing the oldest files leaves the directory of the rest of the array. -/
theorem Mirrors.unlink (h : Mirrors canonicalize snapshots dir) {n : ℕ} (hn : n ≤ snapshots.length) :
    Mirrors canonicalize (snapshots.drop n)
        (unlinkVersions dir ((snapshots.map StoredSnapshot.version).take n)).1 ∧
      (unlinkVersions dir ((snapshots.map StoredSnapshot.version).take n)).2 = n := by
  induction n generalizing snapshots dir with
  | zero => exact ⟨h, rfl⟩
  | succ n ih =>
    cases snapshots with
    | nil => cases hn
    | cons s snapshots =>
      obtain ⟨file, hfile, -⟩ := h.stored s (.head _)
      have hhas : dir.has (snapshotName s.version) = true :=
        JsMap.has_eq_true.mpr (JsMap.mem_keys.mpr ⟨file, hfile⟩)
      have hrest := ih h.tail (Nat.le_of_succ_le_succ hn)
      rw [List.map_cons, List.take_succ_cons, unlinkVersions, if_pos hhas]
      exact ⟨hrest.1, congrArg (· + 1) hrest.2⟩

/-! ## Stores -/

/-- Replies that are the same up to the time a snapshot was saved at. -/
inductive SameReply : SnapshotReply StoredSnapshot → SnapshotReply JsonValue → Prop
  | done : SameReply .done .done
  | missing : SameReply (.found none) (.found none)
  | found {s : StoredSnapshot} {file : JsonValue} (h : SameSnapshot s file) :
      SameReply (.found (some s)) (.found (some file))
  | pruned {result : PruneResult} : SameReply (.pruned result) (.pruned result)
  | has {answer : Bool} : SameReply (.has answer) (.has answer)
  | typeError {message : JsString} : SameReply (.typeError message) (.typeError message)

/-- The streams of a set are the same in both stores. -/
structure Agrees (canonicalize : JsonValue → String) (ids : Set JsString)
    (memory : InMemorySnapshotStore) (files : FileSnapshotStore) : Prop where
  max : files.maxSnapshotsPerStream = none
  streams : ∀ id ∈ ids, Mirrors canonicalize (memory.snapshotsOf id) (files.dirOf id)

section stores

variable {ids : Set JsString} {memory : InMemorySnapshotStore} {files : FileSnapshotStore}
  {streamId : JsString}

theorem dirOf_setDir (hinj : Set.InjOn streamDir ids) (hid : streamId ∈ ids) (dir : Directory)
    {id : JsString} (hmem : id ∈ ids) :
    (files.setDir streamId dir).dirOf id = if streamId = id then dir else files.dirOf id := by
  rw [dirOf, setDir]
  dsimp only
  rw [JsMap.get?_set]
  by_cases heq : streamId = id
  · rw [if_pos heq, if_pos (congrArg streamDir heq)]
    rfl
  · rw [if_neg heq, if_neg fun hdir => heq (hinj hid hmem hdir)]
    rfl

/-- A change to the array and the directory of one stream. -/
theorem Agrees.change (h : Agrees canonicalize ids memory files) (hinj : Set.InjOn streamDir ids)
    (hid : streamId ∈ ids) {memory' : InMemorySnapshotStore}
    (hmemory : ∀ id, memory'.snapshotsOf id =
      if streamId = id then snapshots else memory.snapshotsOf id)
    (hmirrors : Mirrors canonicalize snapshots dir) :
    Agrees canonicalize ids memory' (files.setDir streamId dir) := by
  refine ⟨h.max, fun id hmem => ?_⟩
  rw [hmemory, dirOf_setDir hinj hid dir hmem]
  split
  · exact hmirrors
  · exact h.streams id hmem

theorem snapshotsOf_set (memory : InMemorySnapshotStore) (snapshots : List StoredSnapshot)
    (id : JsString) :
    InMemorySnapshotStore.snapshotsOf ⟨memory.snapshots.set streamId snapshots,
        memory.verifyOnLoad⟩ id =
      if streamId = id then snapshots else memory.snapshotsOf id := by
  rw [InMemorySnapshotStore.snapshotsOf, JsMap.get?_set]
  split <;> rfl

theorem Agrees.listVersions (h : Agrees canonicalize ids memory files) (hid : streamId ∈ ids) :
    files.listVersions streamId = (memory.snapshotsOf streamId).map StoredSnapshot.version :=
  (h.streams streamId hid).versionsIn_eq

/-- A snapshot of the array is found in its file as well. -/
theorem Agrees.read (h : Agrees canonicalize ids memory files) (hid : streamId ∈ ids)
    {s : StoredSnapshot} (hs : s ∈ memory.snapshotsOf streamId) :
    SameReply (.found (memory.verified canonicalize (some s)))
      (.found (files.readSnapshot canonicalize streamId s.version)) := by
  have hstream := h.streams streamId hid
  obtain ⟨file, hfile, hsame⟩ := hstream.stored s hs
  have hhashed := hstream.hashed s hs
  have hverified : memory.verified canonicalize (some s) = some s := by
    rw [InMemorySnapshotStore.verified, Option.filter_some, hhashed, Bool.or_true]
    rfl
  rw [readSnapshot_of_get? hfile hsame hhashed, hverified]
  exact .found hsame

theorem Agrees.load (h : Agrees canonicalize ids memory files) (hid : streamId ∈ ids) :
    SameReply (.found (memory.load canonicalize streamId))
      (.found (files.load canonicalize streamId)) := by
  rw [InMemorySnapshotStore.load, FileSnapshotStore.load, h.listVersions hid, List.getLast?_map]
  rcases hlast : (memory.snapshotsOf streamId).getLast? with _ | s
  · exact .missing
  · exact h.read hid (List.mem_of_getLast? hlast)

theorem Agrees.loadAtVersion (h : Agrees canonicalize ids memory files) (hid : streamId ∈ ids)
    {version : ℕ} (hsafe : version < 2 ^ 53) :
    SameReply (.found (memory.loadAtVersion canonicalize streamId version))
      (.found (files.loadAtVersion canonicalize streamId version)) := by
  rw [InMemorySnapshotStore.loadAtVersion, FileSnapshotStore.loadAtVersion]
  rcases hfind : (memory.snapshotsOf streamId).find? _ with _ | s
  · have hnone : (files.dirOf streamId).get? (snapshotName version) = none := by
      rw [JsMap.get?_eq_none]
      intro hkey
      obtain ⟨s, hs, hname⟩ := (h.streams streamId hid).named _ hkey
      have hversion := snapshotName_inj hsafe ((h.streams streamId hid).safe s hs) hname
      exact List.find?_eq_none.mp hfind s hs (decide_eq_true hversion.symm)
    rw [readSnapshot, hnone]
    exact .missing
  · have hversion : s.version = version := by simpa using List.find?_some hfind
    rw [← hversion]
    exact h.read hid (List.mem_of_find?_eq_some hfind)

theorem Agrees.prune (h : Agrees canonicalize ids memory files) (hinj : Set.InjOn streamDir ids)
    (hid : streamId ∈ ids) (keep : ℕ) :
    (memory.prune streamId keep).2 = (files.prune streamId keep).2 ∧
      Agrees canonicalize ids (memory.prune streamId keep).1 (files.prune streamId keep).1 := by
  rw [InMemorySnapshotStore.prune, FileSnapshotStore.prune, h.listVersions hid]
  dsimp only
  rw [List.length_map]
  split
  · exact ⟨rfl, h⟩
  · obtain ⟨hmirrors, hcount⟩ := (h.streams streamId hid).unlink
      (n := (memory.snapshotsOf streamId).length - keep) (Nat.sub_le _ _)
    rw [hcount, List.length_drop]
    exact ⟨rfl, h.change hinj hid (snapshotsOf_set memory _) hmirrors⟩

theorem Agrees.deleteAll (h : Agrees canonicalize ids memory files) (hinj : Set.InjOn streamDir ids)
    (hid : streamId ∈ ids) :
    Agrees canonicalize ids (memory.deleteAll streamId) (files.deleteAll streamId) := by
  have hmemory : ∀ id, (memory.deleteAll streamId).snapshotsOf id =
      if streamId = id then [] else memory.snapshotsOf id := by
    intro id
    rw [InMemorySnapshotStore.deleteAll, InMemorySnapshotStore.snapshotsOf, JsMap.get?_erase]
    by_cases heq : streamId = id
    · rw [if_pos heq.symm, if_pos heq]
      rfl
    · rw [if_neg (Ne.symm heq), if_neg heq]
      rfl
  rw [FileSnapshotStore.deleteAll]
  split
  · exact h.change hinj hid hmemory mirrors_nil
  · -- a stream without a directory has no array
    rename_i hmissing
    have hnone : files.dirs.get? (streamDir streamId) = none :=
      JsMap.get?_eq_none.mpr fun hkey => hmissing (JsMap.has_eq_true.mpr hkey)
    refine ⟨h.max, fun id hmem => ?_⟩
    rw [hmemory]
    split
    · rename_i heq
      rw [← heq, dirOf, hnone]
      exact mirrors_nil
    · exact h.streams id hmem

theorem Agrees.hasSnapshot (h : Agrees canonicalize ids memory files) (hid : streamId ∈ ids) :
    memory.hasSnapshot streamId = files.hasSnapshot streamId := by
  rw [InMemorySnapshotStore.hasSnapshot, FileSnapshotStore.hasSnapshot, h.listVersions hid]
  simp only [ne_eq, List.map_eq_nil_iff]

end stores

/-! ## Runs -/

def SnapshotCall.streamId : SnapshotCall → JsString
  | .save streamId _ _ | .load streamId | .loadAtVersion streamId _ | .prune streamId _
  | .deleteAll streamId | .hasSnapshot streamId => streamId

/-- The versions of a call are below the bound. -/
def SnapshotCall.Safe : SnapshotCall → Prop
  | .save _ version _ | .loadAtVersion _ version => version < 2 ^ 53
  | _ => True

/-- One call of both stores, each at its own time. -/
theorem Agrees.call {ids : Set JsString} {memory : InMemorySnapshotStore} {files : FileSnapshotStore}
    (h : Agrees canonicalize ids memory files) (hinj : Set.InjOn streamDir ids) {c : SnapshotCall}
    (hid : c.streamId ∈ ids) (hsafe : c.Safe) (now now' : JsString) :
    SameReply (memory.call canonicalize now c).2 (files.call canonicalize now' c).2 ∧
      Agrees canonicalize ids (memory.call canonicalize now c).1
        (files.call canonicalize now' c).1 := by
  cases c with
  | save streamId version state =>
    refine ⟨.done, ?_⟩
    rw [FileSnapshotStore.call, FileSnapshotStore.save, h.max]
    exact h.change hinj hid (snapshotsOf_set memory _)
      ((h.streams streamId hid).save hsafe state now now')
  | load streamId => exact ⟨h.load hid, h⟩
  | loadAtVersion streamId version => exact ⟨h.loadAtVersion hid hsafe, h⟩
  | prune streamId keep =>
    rw [InMemorySnapshotStore.call, FileSnapshotStore.call]
    cases checkKeep keep with
    | error message => exact ⟨.typeError, h⟩
    | ok keep =>
      have hid' : streamId ∈ ids := hid
      obtain ⟨hresult, hagrees⟩ := h.prune hinj hid' keep
      dsimp only
      rw [hresult]
      exact ⟨.pruned, hagrees⟩
  | deleteAll streamId => exact ⟨.done, h.deleteAll hinj hid⟩
  | hasSnapshot streamId =>
    have hid' : streamId ∈ ids := hid
    rw [InMemorySnapshotStore.call, FileSnapshotStore.call, h.hasSnapshot hid']
    exact ⟨.has, h⟩

theorem Agrees.run {ids : Set JsString} {memory : InMemorySnapshotStore} {files : FileSnapshotStore}
    (h : Agrees canonicalize ids memory files) (hinj : Set.InjOn streamDir ids)
    {calls : List (SnapshotCall × JsString × JsString)}
    (hids : ∀ c ∈ calls, c.1.streamId ∈ ids) (hsafe : ∀ c ∈ calls, c.1.Safe) :
    List.Forall₂ SameReply
      (runCalls (InMemorySnapshotStore.call canonicalize) memory
        (calls.map fun c => (c.1, c.2.1)))
      (runCalls (FileSnapshotStore.call canonicalize) files
        (calls.map fun c => (c.1, c.2.2))) := by
  induction calls generalizing memory files with
  | nil => exact .nil
  | cons c calls ih =>
    obtain ⟨hreply, hagrees⟩ := h.call hinj (hids c (.head _)) (hsafe c (.head _)) c.2.1 c.2.2
    exact .cons hreply (ih hagrees (fun c hc => hids c (.tail _ hc)) fun c hc => hsafe c (.tail _ hc))

/-- Both stores reply to every sequence of calls in the same way, up to the times that the snapshots
were saved at, where no two of its streams share a directory. -/
theorem files_refine_memory (canonicalize : JsonValue → String) (verifyMemory verifyFiles : Bool)
    (calls : List (SnapshotCall × JsString × JsString)) (hsafe : ∀ c ∈ calls, c.1.Safe)
    (hinj : Set.InjOn streamDir {id | ∃ c ∈ calls, c.1.streamId = id}) :
    List.Forall₂ SameReply
      (runCalls (InMemorySnapshotStore.call canonicalize) (.new verifyMemory)
        (calls.map fun c => (c.1, c.2.1)))
      (runCalls (FileSnapshotStore.call canonicalize) (.new verifyFiles none)
        (calls.map fun c => (c.1, c.2.2))) := by
  have hstart : Agrees canonicalize {id | ∃ c ∈ calls, c.1.streamId = id} (.new verifyMemory)
      (.new verifyFiles none) := ⟨rfl, fun _ _ => mirrors_nil⟩
  exact hstart.run hinj (fun c hc => ⟨c, hc, rfl⟩) hsafe

/-- Snapshots saved out of order, one of them twice, and pruned. -/
def outOfOrder : List (SnapshotCall × JsString × JsString) :=
  [.save (js "order-1") 10 .null, .save (js "order-1") 9 .null, .save (js "order-1") 10 .null,
    .prune (js "order-1") (.finite 1), .load (js "order-1"), .loadAtVersion (js "order-1") 9].map
    fun c => (c, js "12:00", js "12:01")

theorem files_refine_memory_outOfOrder : List.Forall₂ SameReply
    (runCalls (InMemorySnapshotStore.call JsonValue.canonicalText) (.new true)
      (outOfOrder.map fun c => (c.1, c.2.1)))
    (runCalls (FileSnapshotStore.call JsonValue.canonicalText) (.new true none)
      (outOfOrder.map fun c => (c.1, c.2.2))) := by
  have hstream : ∀ c ∈ outOfOrder, c.1.streamId = js "order-1" := by
    simp [outOfOrder, SnapshotCall.streamId]
  have hsafe : ∀ c ∈ outOfOrder, c.1.Safe := by
    simp [outOfOrder, SnapshotCall.Safe]
  apply files_refine_memory JsonValue.canonicalText true true outOfOrder hsafe
  rintro _ ⟨c, hc, rfl⟩ _ ⟨c', hc', rfl⟩ _
  rw [hstream c hc, hstream c' hc']

end Attestia.EventStore
