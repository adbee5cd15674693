import Attestia.EventStore.HashChain
import Attestia.Lib.DecimalText
import Attestia.Lib.Unwinding
import Attestia.Registrum.Attestation

/-!
# Tenants

`tenant-registry.ts` and `persistence-paths.ts`: every tenant has a service of its own, and a log
and snapshots of its own on the disk. The service of a tenant is any program over its own state and
files; the steps of the services interleave, and the process restarts at any time.
-/

namespace Attestia.Node

open Lib

/-! ## Paths -/

def slash : UInt16 := 0x2F

/-- A path without "." and "..", the innermost name first; a relative one may start with "..". -/
structure ResolvedPath where
  absolute : Bool
  names : List JsString
  deriving DecidableEq

namespace ResolvedPath

def parent (p : ResolvedPath) : ResolvedPath :=
  match p.names with
  | [] => if p.absolute then p else { p with names := [js ".."] }
  | name :: names =>
    if name = js ".." then { p with names := js ".." :: name :: names }
    else { p with names := names }

def enter (p : ResolvedPath) (segment : JsString) : ResolvedPath :=
  if segment = [] ∨ segment = js "." then p
  else if segment = js ".." then p.parent
  else { p with names := segment :: p.names }

def join (p : ResolvedPath) (path : JsString) : ResolvedPath := (path.splitOn slash).foldl enter p

def ofText (path : JsString) : ResolvedPath := join ⟨path.head? = some slash, []⟩ path

end ResolvedPath

/-- What stands before the last name of a path, with the separator between them. -/
def lastDirectory (path : JsString) : JsString :=
  (path.rdropWhile fun u => u = slash).rdropWhile fun u => u ≠ slash

def dirname (path : JsString) : JsString :=
  if lastDirectory path = [] then if path.head? = some slash then [slash] else js "."
  else if lastDirectory path = [slash] ∨ lastDirectory path = [slash, slash] then
    lastDirectory path
  else (lastDirectory path).dropLast

structure PersistenceConfig where
  dataDir : JsString
  eventLogPath : Option JsString

/-- The configured file is the log of the owner, and the other files stand beside it. -/
def persistenceFromConfig (eventsFile : Option JsString) : Option PersistenceConfig :=
  match eventsFile.map DecimalText.trim with
  | none => none
  | some [] => none
  | some eventsFile => some ⟨dirname eventsFile, some eventsFile⟩

structure TenantPaths where
  tenantDir : ResolvedPath
  eventLogPath : ResolvedPath
  snapshotBaseDir : ResolvedPath

def tenantHash (ownerId : JsString) : JsString := EventStore.sha256Hex ownerId

def tenantPaths (dataDir ownerId : JsString) : TenantPaths :=
  let tenantDir := (ResolvedPath.ofText dataDir).join (tenantHash ownerId)
  ⟨tenantDir, tenantDir.join (js "events.jsonl"), tenantDir.join (js "snapshots")⟩

structure AttestiaServiceConfig where
  ownerId : JsString
  persistence : Option PersistenceConfig

/-- The files that a service opens. -/
structure ServicePaths where
  eventLog : ResolvedPath
  snapshots : ResolvedPath

def AttestiaServiceConfig.paths (config : AttestiaServiceConfig) : Option ServicePaths :=
  config.persistence.map fun persistence =>
    let paths := tenantPaths persistence.dataDir config.ownerId
    ⟨(persistence.eventLogPath.map ResolvedPath.ofText).getD paths.eventLogPath,
      paths.snapshotBaseDir⟩

/-- The explicit log belongs to the configured owner. -/
def persistenceForTenant (persistence : Option PersistenceConfig) (tenantId ownerId : JsString) :
    Option PersistenceConfig :=
  match persistence with
  | none => none
  | some persistence =>
    if tenantId = ownerId ∨ persistence.eventLogPath = none then some persistence
    else some { persistence with eventLogPath := none }

def tenantConfig (defaultConfig : AttestiaServiceConfig) (tenantId : JsString) :
    AttestiaServiceConfig :=
  ⟨tenantId, persistenceForTenant defaultConfig.persistence tenantId defaultConfig.ownerId⟩

/-! ## The registry -/

inductive InitState where
  | pending
  | fulfilled
  | rejected

/-- What the log and the snapshots of a service hold. -/
structure ServiceFiles (Log Snapshots : Type) where
  log : Log
  snapshots : Snapshots

/-- A service reads and writes its own files only, where it has any. -/
structure ServiceProgram (Service Step Answer Log Snapshots : Type) where
  /-- A constructor that throws has answered with its error. -/
  construct : AttestiaServiceConfig → Option (ServiceFiles Log Snapshots) →
    Option (ServiceFiles Log Snapshots) × Except Answer Service
  /-- A step of the initialization, and how far it is. -/
  initStep : Service → Option (ServiceFiles Log Snapshots) → Step →
    Option (Service × Option (ServiceFiles Log Snapshots) × InitState)
  step : Service → Option (ServiceFiles Log Snapshots) → Step →
    Option (Service × Option (ServiceFiles Log Snapshots) × Answer)

structure TenantRegistry (Service : Type) where
  tenants : JsMap JsString Service
  inits : JsMap JsString InitState

/-- The disk holds a log and snapshots for each path; directories and lock files are left out. -/
structure TenantServer (Service Answer Log Snapshots : Type) where
  registry : TenantRegistry Service
  logs : ResolvedPath → Log
  snapshots : ResolvedPath → Snapshots
  answers : List (JsString × Answer)

inductive TenantEvent (Step : Type) where
  | getOrCreate (tenantId : JsString)
  | initStep (tenantId : JsString) (step : Step)
  | operate (tenantId : JsString) (step : Step)
  | restart

def TenantEvent.tenant {Step : Type} : TenantEvent Step → Option JsString
  | .getOrCreate tenantId => some tenantId
  | .initStep tenantId _ => some tenantId
  | .operate tenantId _ => some tenantId
  | .restart => none

/-- The events of a tenant, and those of the process. -/
def TenantEvent.concerns {Step : Type} (tenantId : JsString) (e : TenantEvent Step) : Bool :=
  e.tenant.all fun other => other = tenantId

variable {Service Step Answer Log Snapshots : Type}

namespace TenantRegistry

def empty : TenantRegistry Service := ⟨.empty, .empty⟩

def set (registry : TenantRegistry Service) (tenantId : JsString) (service : Service)
    (init : InitState) : TenantRegistry Service :=
  ⟨registry.tenants.set tenantId service, registry.inits.set tenantId init⟩

end TenantRegistry

namespace TenantServer

variable (program : ServiceProgram Service Step Answer Log Snapshots)
  (config : AttestiaServiceConfig) (server : TenantServer Service Answer Log Snapshots)

def files (paths : Option ServicePaths) : Option (ServiceFiles Log Snapshots) :=
  paths.map fun paths => ⟨server.logs paths.eventLog, server.snapshots paths.snapshots⟩

def write (paths : Option ServicePaths) (files : Option (ServiceFiles Log Snapshots)) :
    TenantServer Service Answer Log Snapshots :=
  match paths, files with
  | some paths, some files => { server with
      logs := Function.update server.logs paths.eventLog files.log
      snapshots := Function.update server.snapshots paths.snapshots files.snapshots }
  | _, _ => server

/-- The services are gone with the process, and the files stay. -/
def restart : TenantServer Service Answer Log Snapshots := { server with registry := .empty }

def answer (tenantId : JsString) (answer : Answer) : TenantServer Service Answer Log Snapshots :=
  { server with answers := server.answers ++ [(tenantId, answer)] }

/-- A service has taken a step. -/
def advance (tenantId : JsString) (service : Service)
    (files : Option (ServiceFiles Log Snapshots)) (init : InitState) :
    TenantServer Service Answer Log Snapshots :=
  { server.write (tenantConfig config tenantId).paths files with
    registry := server.registry.set tenantId service init }

/-- Calls for a tenant share its initialization, also one that has failed. -/
def getOrCreate (tenantId : JsString) : TenantServer Service Answer Log Snapshots :=
  match server.registry.inits.get? tenantId with
  | some _ => server
  | none =>
    match program.construct (tenantConfig config tenantId)
      (server.files (tenantConfig config tenantId).paths) with
    | (files, .error error) =>
      (server.write (tenantConfig config tenantId).paths files).answer tenantId error
    | (files, .ok service) => server.advance config tenantId service files .pending

/-- Requests go on when the initialization that they await is fulfilled. -/
def next (server : TenantServer Service Answer Log Snapshots) :
    TenantEvent Step → Option (TenantServer Service Answer Log Snapshots)
  | .getOrCreate tenantId => some (server.getOrCreate program config tenantId)
  | .initStep tenantId step =>
    match server.registry.inits.get? tenantId, server.registry.tenants.get? tenantId with
    | some .pending, some service =>
      (program.initStep service (server.files (tenantConfig config tenantId).paths) step).map
        fun result => server.advance config tenantId result.1 result.2.1 result.2.2
    | _, _ => none
  | .operate tenantId step =>
    match server.registry.inits.get? tenantId, server.registry.tenants.get? tenantId with
    | some .fulfilled, some service =>
      (program.step service (server.files (tenantConfig config tenantId).paths) step).map
        fun result => (server.advance config tenantId result.1 result.2.1 .fulfilled).answer
          tenantId result.2.2
    | _, _ => none
  | .restart => some server.restart

def answersOf (tenantId : JsString) : List Answer :=
  (server.answers.filter fun answer => answer.1 = tenantId).map Prod.snd

end TenantServer

/-- A server starts with no tenants, on any disk. -/
def tenantSystem (program : ServiceProgram Service Step Answer Log Snapshots)
    (config : AttestiaServiceConfig) :
    System (TenantServer Service Answer Log Snapshots) (TenantEvent Step) where
  init server := server.registry = .empty ∧ server.answers = []
  next := TenantServer.next program config

/-! ## Files of tenants -/

namespace ResolvedPath

theorem join_of_plain {p : ResolvedPath} {name : JsString} (hslash : slash ∉ name)
    (hnil : name ≠ []) (hdot : name ≠ js ".") (hparent : name ≠ js "..") :
    p.join name = { p with names := name :: p.names } := by
  rw [join, List.splitOn_eq_singleton hslash, List.foldl_cons, List.foldl_nil, enter,
    if_neg (not_or.mpr ⟨hnil, hdot⟩), if_neg hparent]

theorem length_names_parent_le (p : ResolvedPath) : p.parent.names.length ≤ p.names.length + 1 := by
  unfold parent
  split
  · rename_i h
    split
    · exact Nat.le_succ _
    · rw [h]
      exact le_rfl
  · rename_i name names h
    split
    · rw [h]
      exact le_rfl
    · rw [h, List.length_cons]
      exact (Nat.le_succ _).trans (Nat.le_succ _)

theorem length_names_enter_le (p : ResolvedPath) (segment : JsString) :
    (p.enter segment).names.length ≤ p.names.length + 1 := by
  unfold enter
  split
  · exact Nat.le_succ _
  · split
    · exact length_names_parent_le p
    · exact le_rfl

theorem join_append_slash (p : ResolvedPath) (a b : JsString) :
    p.join (a ++ slash :: b) = (p.join a).join b := by
  rw [join, List.splitOn_append_cons_self, List.foldl_append, join, join]

theorem join_of_notMem {p : ResolvedPath} {name : JsString} (h : slash ∉ name) :
    p.join name = p.enter name := by
  rw [join, List.splitOn_eq_singleton h, List.foldl_cons, List.foldl_nil]

theorem join_nil (p : ResolvedPath) : p.join [] = p := rfl

/-- Separators behind a path do not count. -/
theorem join_append_of_slashes (p : ResolvedPath) (a : JsString) {separators : JsString}
    (h : ∀ u ∈ separators, u = slash) : p.join (a ++ separators) = p.join a := by
  induction separators generalizing p a with
  | nil => rw [List.append_nil]
  | cons u us ih =>
    obtain rfl := h u (.head _)
    rw [join_append_slash, ← List.nil_append us, ih _ _ fun v hv => h v (.tail _ hv), join_nil]

end ResolvedPath

theorem rdropWhile_append_rtakeWhile {α : Type} (p : α → Bool) (l : List α) :
    l.rdropWhile p ++ l.rtakeWhile p = l := by
  rw [List.rdropWhile, List.rtakeWhile, ← List.reverse_append, List.takeWhile_append_dropWhile,
    List.reverse_reverse]

/-- What stands before the last name of a path, that name, and the separators behind it. -/
theorem exists_parts (path : JsString) :
    ∃ name separators, path = lastDirectory path ++ name ++ separators ∧ slash ∉ name ∧
      (∀ u ∈ separators, u = slash) ∧
      (lastDirectory path = [] ∨ ∃ above, lastDirectory path = above ++ [slash]) := by
  refine ⟨(path.rdropWhile fun u => u = slash).rtakeWhile fun u => u ≠ slash,
    path.rtakeWhile fun u => u = slash, ?_, ?_, ?_, ?_⟩
  · rw [lastDirectory, rdropWhile_append_rtakeWhile, rdropWhile_append_rtakeWhile]
  · intro h
    have hne := List.mem_rtakeWhile_imp h
    simp at hne
  · intro u hu
    have heq := List.mem_rtakeWhile_imp hu
    simpa using heq
  · rcases List.eq_nil_or_concat (lastDirectory path) with hnil | ⟨above, u, hconcat⟩
    · exact .inl hnil
    · have hlast : ∀ h : lastDirectory path ≠ [], (lastDirectory path).getLast h = slash := by
        intro h
        by_contra hne
        exact List.rdropWhile_last_not _ _ h (decide_eq_true hne)
      have hu : u = slash := by
        have h := hlast (by simp [hconcat])
        simpa only [hconcat, List.concat_eq_append, List.getLast_append_singleton] using h
      exact .inr ⟨above, by rw [hconcat, hu, List.concat_eq_append]⟩

/-- A path is a name in its directory. -/
theorem exists_enter_dirname (path : JsString) :
    ∃ name, ResolvedPath.ofText path = (ResolvedPath.ofText (dirname path)).enter name := by
  obtain ⟨name, separators, hpath, hname, hseparators, hdir⟩ := exists_parts path
  refine ⟨name, ?_⟩
  have hjoin : ∀ p : ResolvedPath, p.join path = p.join (lastDirectory path ++ name) := fun p =>
    (congrArg p.join hpath).trans (p.join_append_of_slashes _ hseparators)
  rw [ResolvedPath.ofText, hjoin, dirname]
  rcases hdir with hnil | ⟨above, habove⟩
  · rw [hnil, List.nil_append, ResolvedPath.join_of_notMem hname, if_pos rfl]
    split
    · rename_i hroot
      rw [hroot]
      rfl
    · rename_i hroot
      rw [decide_eq_false hroot]
      rfl
  · have hhead : path.head? = (above ++ [slash]).head? := by
      rw [hpath, habove]
      cases above <;> rfl
    rw [habove, List.append_assoc, List.singleton_append, ResolvedPath.join_append_slash,
      ResolvedPath.join_of_notMem hname, if_neg (by simp), hhead]
    -- the separators of a root stand for nothing behind it
    rcases above with _ | ⟨u, above⟩
    · rfl
    · split
      · rename_i hroot
        rcases hroot with hroot | hroot
        · simp at hroot
        · obtain ⟨rfl, rfl⟩ : u = slash ∧ above = [] := by
            rw [List.cons_append, List.cons.injEq] at hroot
            refine ⟨hroot.1, ?_⟩
            cases above with
            | nil => rfl
            | cons v vs => simp at hroot
          rfl
      · rw [List.dropLast_concat]
        rfl

theorem isHash_tenantHash (ownerId : JsString) : Registrum.isHash (tenantHash ownerId) = true := by
  apply Registrum.isHash_units
  · rw [hexEncode_length, sha256_length]
  · exact fun c hc => isLowerHex_of_mem_hexEncode hc

theorem slash_notMem_tenantHash (ownerId : JsString) : slash ∉ tenantHash ownerId := by
  intro h
  have hhash := isHash_tenantHash ownerId
  rw [Registrum.isHash, Bool.and_eq_true] at hhash
  have hhex := List.all_eq_true.mp hhash.2 _ h
  revert hhex
  decide

theorem length_tenantHash (ownerId : JsString) : (tenantHash ownerId).length = 64 := by
  have hhash := isHash_tenantHash ownerId
  rw [Registrum.isHash, Bool.and_eq_true] at hhash
  exact of_decide_eq_true hhash.1

theorem join_tenantHash (p : ResolvedPath) (ownerId : JsString) :
    p.join (tenantHash ownerId) = { p with names := tenantHash ownerId :: p.names } := by
  have hlength := length_tenantHash ownerId
  refine ResolvedPath.join_of_plain (slash_notMem_tenantHash ownerId) ?_ ?_ ?_
  all_goals
    intro h
    rw [h] at hlength
    revert hlength
    decide

/-- The three paths of a tenant are those of its directory, which is named by the hash. -/
theorem tenantPaths_eq (dataDir ownerId : JsString) :
    tenantPaths dataDir ownerId =
      let base := ResolvedPath.ofText dataDir
      let names := tenantHash ownerId :: base.names
      ⟨{ base with names := names }, { base with names := js "events.jsonl" :: names },
        { base with names := js "snapshots" :: names }⟩ := by
  simp only [tenantPaths, join_tenantHash]
  rw [ResolvedPath.join_of_plain (by decide) (by decide) (by decide) (by decide),
    ResolvedPath.join_of_plain (by decide) (by decide) (by decide) (by decide)]

/-- The messages that are hashed for the directories of tenants. -/
def tenantMessages (tenants : Set JsString) : Set Bytes :=
  {m | ∃ tenantId ∈ tenants, m = Utf8.encode (JsString.toWellFormed tenantId)}

/-- Tenants whose names are told apart as text have directories of their own. -/
theorem tenantHash_injOn {tenants : Set JsString} (hcoll : CollisionFree (tenantMessages tenants))
    (htext : Set.InjOn JsString.toWellFormed tenants) : Set.InjOn tenantHash tenants := by
  intro t ht u hu h
  have hmessage := hcoll ⟨t, ht, rfl⟩ ⟨u, hu, rfl⟩ (hexEncode_injective (js_injective h))
  have hutf := congrArg Utf8.decode hmessage
  rw [Utf8.decode_encode, Utf8.decode_encode] at hutf
  exact htext ht hu hutf

/-- No two of the files that two services open are one. -/
def PathsApart (p q : Option ServicePaths) : Prop :=
  ∀ a ∈ p, ∀ b ∈ q, a.eventLog ≠ b.eventLog ∧ a.snapshots ≠ b.snapshots

/-- The explicit log is not the log below the directory of a tenant. -/
def LogOutside (config : AttestiaServiceConfig) (tenants : Set JsString) : Prop :=
  ∀ persistence ∈ config.persistence, ∀ path ∈ persistence.eventLogPath, ∀ tenantId ∈ tenants,
    ResolvedPath.ofText path ≠ (tenantPaths persistence.dataDir tenantId).eventLogPath

/-- The log of a configured file lies in the data directory itself, outside those of the tenants. -/
theorem logOutside_of_persistenceFromConfig {config : AttestiaServiceConfig}
    {eventsFile : Option JsString} (h : config.persistence = persistenceFromConfig eventsFile)
    (tenants : Set JsString) : LogOutside config tenants := by
  intro persistence hpersistence path hpath tenantId _ heq
  rw [h, persistenceFromConfig] at hpersistence
  split at hpersistence
  · cases hpersistence
  · cases hpersistence
  · obtain rfl := Option.some.inj hpersistence
    obtain rfl := Option.some.inj hpath
    rename_i file _ _
    -- the log of a tenant is two names below the data directory, the configured one at most one
    obtain ⟨name, hname⟩ := exists_enter_dirname file
    have hlength := ResolvedPath.length_names_enter_le (ResolvedPath.ofText (dirname file)) name
    rw [← hname, heq, tenantPaths_eq] at hlength
    simp only [List.length_cons] at hlength
    omega

/-- The files of a tenant are in its directory, but for the log that the owner is given. -/
theorem paths_tenantConfig {config : AttestiaServiceConfig} {tenantId : JsString}
    {paths : ServicePaths} (h : paths ∈ (tenantConfig config tenantId).paths) :
    ∃ persistence ∈ config.persistence,
      paths.snapshots = (tenantPaths persistence.dataDir tenantId).snapshotBaseDir ∧
      (paths.eventLog = (tenantPaths persistence.dataDir tenantId).eventLogPath ∨
        tenantId = config.ownerId ∧ ∃ path ∈ persistence.eventLogPath,
          paths.eventLog = ResolvedPath.ofText path) := by
  obtain ⟨used, hused, rfl⟩ := Option.map_eq_some_iff.mp h
  cases hconfig : config.persistence with
  | none => simp [tenantConfig, persistenceForTenant, hconfig] at hused
  | some persistence =>
    refine ⟨persistence, rfl, ?_⟩
    simp only [tenantConfig, persistenceForTenant, hconfig] at hused
    split at hused
    · rename_i howner
      obtain rfl := Option.some.inj hused
      refine ⟨rfl, ?_⟩
      cases hpath : persistence.eventLogPath with
      | none => exact .inl (by simp [tenantConfig])
      | some path =>
        rcases howner with howner | hnone
        · exact .inr ⟨howner, path, rfl, by simp⟩
        · rw [hpath] at hnone
          cases hnone
    · obtain rfl := Option.some.inj hused
      exact ⟨rfl, .inl rfl⟩

theorem pathsApart_of_ne {config : AttestiaServiceConfig} {tenants : Set JsString} {t u : JsString}
    (hhash : Set.InjOn tenantHash tenants) (hlog : LogOutside config tenants) (ht : t ∈ tenants)
    (hu : u ∈ tenants) (hne : t ≠ u) :
    PathsApart (tenantConfig config t).paths (tenantConfig config u).paths := by
  intro a ha b hb
  obtain ⟨p, hp, hsnapshots, hlogs⟩ := paths_tenantConfig ha
  obtain ⟨q, hq, hsnapshots', hlogs'⟩ := paths_tenantConfig hb
  obtain rfl := Option.some.inj (hp.symm.trans hq)
  have hdir : tenantHash t ≠ tenantHash u := fun h => hne (hhash ht hu h)
  -- only the owner has a log that is not in its directory, and it is one tenant
  refine ⟨fun heq => ?_, fun heq => ?_⟩
  · rcases hlogs with hlogs | ⟨hownerT, path, hpath, hlogs⟩
    · rcases hlogs' with hlogs' | ⟨-, path', hpath', hlogs'⟩
      · rw [hlogs, hlogs', tenantPaths_eq, tenantPaths_eq] at heq
        simp only [ResolvedPath.mk.injEq, List.cons.injEq, true_and, and_true] at heq
        exact hdir heq
      · exact hlog p hp path' hpath' t ht (hlogs'.symm.trans (heq.symm.trans hlogs))
    · rcases hlogs' with hlogs' | ⟨hownerU, -⟩
      · exact hlog p hp path hpath u hu (hlogs.symm.trans (heq.trans hlogs'))
      · exact hne (hownerT.trans hownerU.symm)
  · rw [hsnapshots, hsnapshots', tenantPaths_eq, tenantPaths_eq] at heq
    simp only [ResolvedPath.mk.injEq, List.cons.injEq, true_and, and_true] at heq
    exact hdir heq

/-! ## Isolation -/

section

variable {program : ServiceProgram Service Step Answer Log Snapshots}
  {config : AttestiaServiceConfig} {tenantId other : JsString}
  {s s' : TenantServer Service Answer Log Snapshots}

/-- What a tenant can tell of a server: its service, its files and its answers. -/
structure SameTenant (config : AttestiaServiceConfig) (tenantId : JsString)
    (s s' : TenantServer Service Answer Log Snapshots) : Prop where
  service : s.registry.tenants.get? tenantId = s'.registry.tenants.get? tenantId
  init : s.registry.inits.get? tenantId = s'.registry.inits.get? tenantId
  files :
    s.files (tenantConfig config tenantId).paths = s'.files (tenantConfig config tenantId).paths
  answers : s.answersOf tenantId = s'.answersOf tenantId

theorem files_write_of_apart {paths paths' : Option ServicePaths} (h : PathsApart paths paths')
    (files : Option (ServiceFiles Log Snapshots)) :
    (s.write paths' files).files paths = s.files paths := by
  unfold TenantServer.write
  split
  · rename_i q f
    cases paths with
    | none => rfl
    | some p =>
      obtain ⟨hlog, hsnapshots⟩ := h p rfl q rfl
      simp only [TenantServer.files, Option.map_some, Function.update_of_ne hlog,
        Function.update_of_ne hsnapshots]
  · rfl

theorem files_write_congr {paths : Option ServicePaths} (h : s.files paths = s'.files paths)
    (files : Option (ServiceFiles Log Snapshots)) :
    (s.write paths files).files paths = (s'.write paths files).files paths := by
  unfold TenantServer.write
  split
  · simp only [TenantServer.files, Option.map_some, Function.update_self]
  · exact h

theorem registry_write (paths : Option ServicePaths)
    (files : Option (ServiceFiles Log Snapshots)) :
    (s.write paths files).registry = s.registry := by
  unfold TenantServer.write
  split <;> rfl

theorem answersOf_write (paths : Option ServicePaths)
    (files : Option (ServiceFiles Log Snapshots)) :
    (s.write paths files).answersOf tenantId = s.answersOf tenantId := by
  unfold TenantServer.write
  split <;> rfl

/-- The files of the tenant are written on both servers. -/
theorem SameTenant.write (h : SameTenant config tenantId s s')
    (files : Option (ServiceFiles Log Snapshots)) :
    SameTenant config tenantId (s.write (tenantConfig config tenantId).paths files)
      (s'.write (tenantConfig config tenantId).paths files) where
  service := by rw [registry_write, registry_write, h.service]
  init := by rw [registry_write, registry_write, h.init]
  files := files_write_congr h.files files
  answers := by rw [answersOf_write, answersOf_write, h.answers]

/-- The files of another tenant are written. -/
theorem SameTenant.write_other (h : SameTenant config tenantId s s')
    (hapart : PathsApart (tenantConfig config tenantId).paths (tenantConfig config other).paths)
    (files : Option (ServiceFiles Log Snapshots)) :
    SameTenant config tenantId (s.write (tenantConfig config other).paths files) s' where
  service := by rw [registry_write, h.service]
  init := by rw [registry_write, h.init]
  files := (files_write_of_apart hapart files).trans h.files
  answers := by rw [answersOf_write, h.answers]

theorem SameTenant.answer (h : SameTenant config tenantId s s') (answer : Answer) :
    SameTenant config tenantId (s.answer tenantId answer) (s'.answer tenantId answer) where
  service := h.service
  init := h.init
  files := h.files
  answers := by
    have hlast : ∀ t : TenantServer Service Answer Log Snapshots,
        (t.answer tenantId answer).answersOf tenantId = t.answersOf tenantId ++ [answer] := by
      intro t
      simp [TenantServer.answer, TenantServer.answersOf]
    rw [hlast, hlast, h.answers]

theorem SameTenant.answer_other (h : SameTenant config tenantId s s') (hne : other ≠ tenantId)
    (answer : Answer) : SameTenant config tenantId (s.answer other answer) s' where
  service := h.service
  init := h.init
  files := h.files
  answers := by
    rw [← h.answers]
    simp [TenantServer.answer, TenantServer.answersOf, hne]

theorem SameTenant.advance (h : SameTenant config tenantId s s') (service : Service)
    (files : Option (ServiceFiles Log Snapshots)) (init : InitState) :
    SameTenant config tenantId (s.advance config tenantId service files init)
      (s'.advance config tenantId service files init) where
  service := by simp only [TenantServer.advance, TenantRegistry.set, JsMap.get?_set_self]
  init := by simp only [TenantServer.advance, TenantRegistry.set, JsMap.get?_set_self]
  files := (h.write files).files
  answers := (h.write files).answers

theorem SameTenant.advance_other (h : SameTenant config tenantId s s') (hne : other ≠ tenantId)
    (hapart : PathsApart (tenantConfig config tenantId).paths (tenantConfig config other).paths)
    (service : Service) (files : Option (ServiceFiles Log Snapshots)) (init : InitState) :
    SameTenant config tenantId (s.advance config other service files init) s' where
  service := (JsMap.get?_set_of_ne _ _ hne).trans h.service
  init := (JsMap.get?_set_of_ne _ _ hne).trans h.init
  files := (h.write_other hapart files).files
  answers := (h.write_other hapart files).answers

theorem SameTenant.getOrCreate (h : SameTenant config tenantId s s') :
    SameTenant config tenantId (s.getOrCreate program config tenantId)
      (s'.getOrCreate program config tenantId) := by
  unfold TenantServer.getOrCreate
  rw [← h.init, ← h.files]
  split
  · exact h
  · split
    · exact (h.write _).answer _
    · exact h.advance _ _ _

theorem SameTenant.getOrCreate_other (h : SameTenant config tenantId s s')
    (hne : other ≠ tenantId)
    (hapart : PathsApart (tenantConfig config tenantId).paths (tenantConfig config other).paths) :
    SameTenant config tenantId (s.getOrCreate program config other) s' := by
  unfold TenantServer.getOrCreate
  split
  · exact h
  · split
    · exact (h.write_other hapart _).answer_other hne _
    · exact h.advance_other hne hapart _ _ _

theorem SameTenant.restart (h : SameTenant config tenantId s s') :
    SameTenant config tenantId s.restart s'.restart :=
  ⟨rfl, rfl, h.files, h.answers⟩

theorem SameTenant.next (h : SameTenant config tenantId s s') {e : TenantEvent Step}
    {t : TenantServer Service Answer Log Snapshots} (hconcerns : e.concerns tenantId = true)
    (hnext : s.next program config e = some t) :
    ∃ t', s'.next program config e = some t' ∧ SameTenant config tenantId t t' := by
  cases e with
  | getOrCreate other =>
    obtain rfl : other = tenantId := of_decide_eq_true hconcerns
    cases hnext
    exact ⟨_, rfl, h.getOrCreate⟩
  | initStep other step =>
    obtain rfl : other = tenantId := of_decide_eq_true hconcerns
    dsimp only [TenantServer.next] at hnext ⊢
    -- the step is taken from the same service and files on both servers
    rw [← h.init, ← h.service, ← h.files]
    split at hnext
    · obtain ⟨result, hresult, rfl⟩ := Option.map_eq_some_iff.mp hnext
      rw [hresult]
      exact ⟨_, rfl, h.advance _ _ _⟩
    · cases hnext
  | operate other step =>
    obtain rfl : other = tenantId := of_decide_eq_true hconcerns
    dsimp only [TenantServer.next] at hnext ⊢
    rw [← h.init, ← h.service, ← h.files]
    split at hnext
    · obtain ⟨result, hresult, rfl⟩ := Option.map_eq_some_iff.mp hnext
      rw [hresult]
      exact ⟨_, rfl, (h.advance _ _ _).answer _⟩
    · cases hnext
  | restart =>
    cases hnext
    exact ⟨_, rfl, h.restart⟩

theorem SameTenant.next_other (h : SameTenant config tenantId s s') {e : TenantEvent Step}
    {t : TenantServer Service Answer Log Snapshots} (hconcerns : e.concerns tenantId = false)
    (hapart : ∀ other ∈ e.tenant, other ≠ tenantId →
      PathsApart (tenantConfig config tenantId).paths (tenantConfig config other).paths)
    (hnext : s.next program config e = some t) : SameTenant config tenantId t s' := by
  cases e with
  | getOrCreate other =>
    have hne : other ≠ tenantId := of_decide_eq_false hconcerns
    cases hnext
    exact h.getOrCreate_other hne (hapart other rfl hne)
  | initStep other step =>
    have hne : other ≠ tenantId := of_decide_eq_false hconcerns
    dsimp only [TenantServer.next] at hnext
    split at hnext
    · obtain ⟨result, -, rfl⟩ := Option.map_eq_some_iff.mp hnext
      exact h.advance_other hne (hapart other rfl hne) _ _ _
    · cases hnext
  | operate other step =>
    have hne : other ≠ tenantId := of_decide_eq_false hconcerns
    dsimp only [TenantServer.next] at hnext
    split at hnext
    · obtain ⟨result, -, rfl⟩ := Option.map_eq_some_iff.mp hnext
      exact (h.advance_other hne (hapart other rfl hne) _ _ _).answer_other hne _
    · cases hnext
  | restart => cases hconcerns

/-- Whatever the other tenants do, in any order of steps and over restarts, the service, the files
and the answers of a tenant are those of a server on which it is alone. -/
theorem tenant_isolated {tenants : Set JsString} {es : List (TenantEvent Step)}
    (htext : Set.InjOn JsString.toWellFormed tenants)
    (hcoll : CollisionFree (tenantMessages tenants)) (hlog : LogOutside config tenants)
    (htenant : tenantId ∈ tenants) (hes : ∀ e ∈ es, ∀ other ∈ e.tenant, other ∈ tenants)
    (hrun : (tenantSystem program config).run s es = some s') :
    ∃ alone, (tenantSystem program config).run s (es.filter (TenantEvent.concerns tenantId)) =
      some alone ∧ SameTenant config tenantId s' alone := by
  have hunwinds : (tenantSystem program config).Unwinds
      (fun e => ∀ other ∈ e.tenant, other ∈ tenants) (TenantEvent.concerns tenantId)
      (SameTenant config tenantId) := by
    refine ⟨fun hR _ hconcerns hnext => hR.next hconcerns hnext, ?_⟩
    intro t t' u e hR he hconcerns hnext
    refine hR.next_other hconcerns (fun other hother hne => ?_) hnext
    exact pathsApart_of_ne (tenantHash_injOn hcoll htext) hlog htenant (he other hother) hne.symm
  exact hunwinds.run_filter ⟨rfl, rfl, rfl, rfl⟩ hes hrun

end

/-! ## Two tenants -/

/-- A service that has read its log appends to it, and answers with what it holds in memory. -/
def logProgram : ServiceProgram (List ℕ) ℕ (List ℕ) (List ℕ) Unit where
  construct _ files := (files, .ok [])
  initStep _ files _ := some ((files.map ServiceFiles.log).getD [], files, .fulfilled)
  step service files n := some (n :: service,
    files.map fun files => { files with log := n :: files.log }, n :: service)

/-- The log of the owner stands beside the directories of the other tenants. -/
def hostedConfig : AttestiaServiceConfig :=
  ⟨js "default", persistenceFromConfig (some (js " /data/events.jsonl"))⟩

def emptyServer : TenantServer (List ℕ) (List ℕ) (List ℕ) Unit :=
  ⟨.empty, fun _ => [], fun _ => (), []⟩

def openEvents (tenantId : JsString) : List (TenantEvent ℕ) :=
  [.getOrCreate tenantId, .initStep tenantId 0, .operate tenantId 1]

def twoTenants : List (TenantEvent ℕ) :=
  openEvents (js "default") ++ openEvents (js "globex") ++ [.restart] ++ openEvents (js "globex") ++
    openEvents (js "default")

def hostedTenants : Set JsString := {js "default", js "globex"}

theorem tenant_isolated_twoTenants : ∃ server alone,
    (tenantSystem logProgram hostedConfig).run emptyServer twoTenants = some server ∧
      (tenantSystem logProgram hostedConfig).run emptyServer
        (twoTenants.filter (TenantEvent.concerns (js "globex"))) = some alone ∧
      SameTenant hostedConfig (js "globex") server alone := by
  obtain ⟨server, hrun⟩ := Option.isSome_iff_exists.mp
    (show ((tenantSystem logProgram hostedConfig).run emptyServer twoTenants).isSome = true by
      decide +kernel)
  have htext : Set.InjOn JsString.toWellFormed hostedTenants := by
    rintro _ (rfl | rfl) _ (rfl | rfl) h
    all_goals
      exact congrArg js (String.toList_injective
        ((toWellFormed_js _).symm.trans (h.trans (toWellFormed_js _))))
  have hcoll : CollisionFree (tenantMessages hostedTenants) := by
    have hheads := collisionFree_of_head (l := [Utf8.encode "default".toList,
      Utf8.encode "globex".toList]) (by decide +kernel)
    refine hheads.mono ?_
    rintro _ ⟨_, rfl | rfl, rfl⟩
    · rw [toWellFormed_js]
      exact .head _
    · rw [toWellFormed_js]
      exact .tail _ (.head _)
  have hconfigured :
      hostedConfig.persistence = persistenceFromConfig (some (js " /data/events.jsonl")) := rfl
  have hlog : LogOutside hostedConfig hostedTenants :=
    logOutside_of_persistenceFromConfig hconfigured hostedTenants
  have hes : ∀ e ∈ twoTenants, ∀ other ∈ e.tenant, other ∈ hostedTenants := by
    simp [twoTenants, openEvents, TenantEvent.tenant, hostedTenants]
  obtain ⟨alone, halone, hsame⟩ :=
    tenant_isolated htext hcoll hlog (.inr rfl : js "globex" ∈ hostedTenants) hes hrun
  exact ⟨server, alone, hrun, halone, hsame⟩

end Attestia.Node
