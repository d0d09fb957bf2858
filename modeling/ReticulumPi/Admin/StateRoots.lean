import Mathlib.Data.List.Dedup
import Mathlib.Data.List.Sort
import ReticulumPi.Lib.Fallible
import ReticulumPi.Lib.PosixPath
import ReticulumPi.Lib.PyValue

/-!
# The durable state roots and their backup records

An administration transaction backs up, and after a failure swaps back, a set of
directories: the configuration, the data, and what an older installation left in
the homes and install roots that its unit names. `_state_roots` chooses and names
them; `_backup_state` writes them into `backup.json`; `_backup_roots_from_metadata`
and `_restore_records` read them back, without looking at the installed units
again, and recognise a legacy root by the end of its name.

What an older installation left is part of the input, and so is the state of the
file system, which is the same when the backup is written and read.
-/

namespace ReticulumPi.Admin

open PosixPath

/-- The ways in which these functions fail: the file system's, and the
    `AdminError`s. -/
inductive Error where
  | symlinkLoop
  | notADirectory
  /-- privileged path contains a symlink: … -/
  | symlinkComponent (path : Path)
  /-- backup state-root path evidence is invalid -/
  | pathEvidenceInvalid
  /-- backup state-root path is not absolute: … -/
  | pathNotAbsolute (rawPath : String)
  /-- backup canonical configuration root does not match this system -/
  | configurationRootMismatch
  /-- backup canonical data root does not match this system -/
  | dataRootMismatch
  /-- backup contains an invalid legacy state root: … -/
  | invalidLegacyRoot (name : String)
  /-- backup legacy state-root path does not match its name: … -/
  | legacyPathMismatch (name : String)
  /-- backup state-root path is unsafe: … -/
  | unsafePath (path : Path)
  /-- legacy bridge root evidence must be a list -/
  | evidenceNotAList
  /-- legacy bridge root evidence is invalid -/
  | evidenceInvalid
  /-- legacy bridge root evidence contains duplicates or overlaps -/
  | evidenceOverlaps
  /-- legacy bridge root evidence omits canonical state roots -/
  | evidenceIncomplete
  /-- backup state-root records are missing -/
  | recordsMissing
  /-- backup feature metadata is invalid -/
  | featuresInvalid
  /-- unknown features: … -/
  | unknownFeatures (features : List String)
  /-- invalid legacy backup directory: … -/
  | invalidBackupDirectory (name : String)
  /-- unsupported transaction backup schema -/
  | unsupportedSchema
  /-- backup state-root record must be an object -/
  | recordNotAnObject
  /-- backup contains an invalid state root: … -/
  | invalidRoot (name : PyValue)
  /-- backup state-root path evidence changed: … -/
  | pathEvidenceChanged (name : String)
  /-- backup state-root metadata is invalid: … -/
  | recordInvalid (name : String)
  /-- absent backup state root has a manifest: … -/
  | absentWithManifest (name : String)
  /-- backup state-root set is incomplete: missing=…; extra=… -/
  | incomplete (missing extra : List String)

/-- One durable directory participating in an administration transaction. -/
structure StateRoot where
  name : String
  path : Path
deriving DecidableEq

/-! ## Directories -/

/-- `CONFIG_DIR` -/
def configDir : Path := [.of "etc", .of "reticulumpi"]

/-- `DATA_DIR` -/
def dataDir : Path := [.of "var", .of "lib", .of "reticulumpi"]

/-- `_UNSAFE_ROOTS` -/
def unsafeRoots : List Path :=
  [[], [.of "usr"], [.of "etc"], [.of "var"], [.of "home"]]

def meshchatStorage : Path := [.of "meshchat", .of "storage"]
def reticulumHome : Path := [.of ".reticulum"]
def configHome : Path := [.of ".config", .of "reticulumpi"]
def dataHome : Path := [.of ".local", .of "share", .of "reticulumpi"]
def nomadnetHome : Path := [.of ".nomadnet"]
def nomadnetTuiHome : Path := [.of ".nomadnet-tui"]

/-- What an older installation left: the homes of the service, and the install
    roots with a MeshChat storage. -/
structure LegacyLayout where
  homes : List Path
  storages : List Path

/-- The system on which a backup is written or read: the files, the legacy layout,
    the paths that begin with `~`, and the directories of a backup of the oldest
    kind, with their manifests unless they are invalid. -/
structure Host where
  fs : FileSystem
  layout : LegacyLayout
  expandUser : String → Option Path := fun _ => none
  backupDirectory : String → Option (Option (List PyValue)) := fun _ => none

section Choosing

variable (fs : FileSystem)

/-- `path.resolve()` -/
def resolve (path : Path) : Except Error Path :=
  match fs.resolve path with
  | some resolved => .ok resolved
  | none => .error .symlinkLoop

/-- `_reject_symlink_components` -/
def rejectSymlinkComponents (path : Path) : Except Error Unit :=
  match fs.findLink [] path with
  | .none => .ok ()
  | .link current => .error (.symlinkComponent current)
  | .notADirectory => .error .notADirectory

/-- The state roots of the legacy home with the given number. -/
def legacyHomeRoots (features : List String) (index : ℕ) (home : Path) : List StateRoot :=
  let pre := if index = 1 then "legacy-home" else "legacy-layout-" ++ toString index
  [⟨pre ++ "-reticulum", home ++ reticulumHome⟩, ⟨pre ++ "-config", home ++ configHome⟩,
    ⟨pre ++ "-data", home ++ dataHome⟩] ++
  if "nomadnet" ∈ features then
    [⟨pre ++ "-nomadnet", home ++ nomadnetHome⟩, ⟨pre ++ "-nomadnet-tui", home ++ nomadnetTuiHome⟩]
  else []

/-- The state root of the MeshChat storage with the given number. -/
def storageRoot (index : ℕ) (installRoot : Path) : StateRoot :=
  ⟨if index = 1 then "legacy-meshchat-storage"
    else "legacy-meshchat-" ++ toString index ++ "-storage",
   installRoot ++ meshchatStorage⟩

/-- The legacy roots, in the order in which they are considered. -/
def candidates (layout : LegacyLayout) (features : List String) : List StateRoot :=
  (layout.homes.zipIdx 1).flatMap (fun e => legacyHomeRoots features e.2 e.1) ++
    (layout.storages.zipIdx 1).map fun e => storageRoot e.2 e.1

/-- The path lies in one of the others, or one of them lies in it. -/
def Covered (covered : List Path) (resolved : Path) : Prop :=
  ∃ existing ∈ covered, Nested resolved existing
deriving Decidable

/-- A candidate becomes a root unless the roots so far, whose resolved paths are
    kept along with them, cover it. -/
def consider (chosen : List Path × List StateRoot) (candidate : StateRoot) :
    Except Error (List Path × List StateRoot) := do
  let resolved ← resolve fs candidate.path
  if Covered chosen.1 resolved then return chosen
  else return (chosen.1 ++ [resolved], chosen.2 ++ [candidate])

/-- `_state_roots` -/
def stateRoots (layout : LegacyLayout) (features : List String) :
    Except Error (List StateRoot) := do
  let config ← resolve fs configDir
  let data ← resolve fs dataDir
  let chosen ← (candidates layout features).foldlM (consider fs)
    ([config, data], [⟨"etc", configDir⟩, ⟨"data", dataDir⟩])
  forM chosen.2 fun root => rejectSymlinkComponents fs root.path
  return chosen.2

end Choosing

/-! ## Writing the metadata -/

/-- What else `backup.json` says. -/
structure BackupInfo where
  version : String
  createdAt : String
  databases : PyValue
  configurationFile : String
  externalConfigurationFile : Option String
  identityHashes : PyValue

/-- The manifest of a directory that was copied. -/
abbrev Manifest := List (List (String × PyValue))

/-- The record of a root, with the manifest of its copy if it is present. -/
def rootRecord (name : String) (resolved : Path) (copy : Option Manifest) : PyValue :=
  .dict [("name", .str name), ("path", .str (text resolved)), ("present", .bool copy.isSome),
    ("manifest", .list ((copy.getD []).map .dict))]

/-- The metadata that `_backup_state` writes for the roots. -/
def backupMetadata (fs : FileSystem) (info : BackupInfo) (features : List String)
    (copies : StateRoot → Option Manifest) (roots : List StateRoot) :
    Except Error (List (String × PyValue)) := do
  let records ← roots.mapM fun root => do
    let resolved ← resolve fs root.path
    return rootRecord root.name resolved (copies root)
  return [("schema", .int 2), ("version", .str info.version), ("created_at", .str info.createdAt),
    ("databases", info.databases), ("features", .list (features.map .str)),
    ("configuration_file", .str info.configurationFile),
    ("external_configuration_file", (info.externalConfigurationFile.map .str).getD .none),
    ("identity_hashes", info.identityHashes), ("state_roots", .list records)]

/-! ## Reading it back -/

section Reading

variable (host : Host)

/-- The end of a legacy root's name, with the end of its path. -/
def suffixes : List (String × Path) :=
  [("meshchat-storage", meshchatStorage), ("reticulum", reticulumHome), ("config", configHome),
    ("data", dataHome), ("nomadnet", nomadnetHome), ("nomadnet-tui", nomadnetTuiHome)]

/-- `name.endswith(f"-{label}")` -/
def EndsWith (name label : String) : Prop := '-' :: label.toList <:+ name.toList
deriving Decidable

/-- `matched_suffix` -/
def matchedSuffix (name : String) : Option Path :=
  (suffixes.find? fun e => EndsWith name e.1).map Prod.snd

/-- The path of a root is the one that its name stands for. -/
def checkRootPath (name : String) (path : Path) : Except Error Unit := do
  if name = "etc" then
    if path ≠ (← resolve host.fs configDir) then throw .configurationRootMismatch
  else if name = "data" then
    if path ≠ (← resolve host.fs dataDir) then throw .dataRootMismatch
  else
    match matchedSuffix name with
    | none => throw (.invalidLegacyRoot name)
    | some suffix =>
      if path.length < suffix.length then throw (.invalidLegacyRoot name)
      if path.drop (path.length - suffix.length) ≠ suffix then throw (.legacyPathMismatch name)

/-- `_validate_backup_state_root` -/
def validateBackupStateRoot : PyValue → PyValue → Except Error StateRoot
  | .str name, .str rawPath => do
    match (ofText rawPath).or (host.expandUser rawPath) with
    | none => throw (.pathNotAbsolute rawPath)
    | some requested =>
      rejectSymlinkComponents host.fs requested
      let path ← resolve host.fs requested
      checkRootPath host name path
      if path ∈ unsafeRoots then throw (.unsafePath path)
      return ⟨name, path⟩
  | _, _ => throw .pathEvidenceInvalid

/-- One entry of the evidence is added to those validated before it. -/
def validateEvidenceItem (validated : List StateRoot) : PyValue → Except Error (List StateRoot)
  | .dict item => do
    if ¬ (item.map Prod.fst ⊆ ["name", "path"] ∧ ["name", "path"] ⊆ item.map Prod.fst) then
      throw .evidenceInvalid
    let root ← validateBackupStateRoot host ((item.lookup "name").getD .none)
      ((item.lookup "path").getD .none)
    let resolved ← resolve host.fs root.path
    if root.name ∈ validated.map (·.name) ∨ Covered (validated.map (·.path)) resolved then
      throw .evidenceOverlaps
    return validated ++ [⟨root.name, resolved⟩]
  | _ => throw .evidenceInvalid

/-- `_validate_backup_root_evidence` -/
def validateBackupRootEvidence : PyValue → Except Error (List StateRoot)
  | .list raw => do
    let validated ← raw.foldlM (validateEvidenceItem host) []
    if ¬ ["etc", "data"] ⊆ validated.map (·.name) then throw .evidenceIncomplete
    return validated
  | _ => throw .evidenceNotAList

/-- A list of texts. -/
def strings? : List PyValue → Option (List String) :=
  List.mapM fun
    | .str s => some s
    | _ => none

variable (metadata : List (String × PyValue))

/-- `metadata.get("features", [])`, a list of texts. -/
def rawFeatures : Except Error (List String) :=
  match (metadata.lookup "features").getD (.list []) with
  | .list l =>
    match strings? l with
    | some features => .ok features
    | none => .error .featuresInvalid
  | _ => .error .featuresInvalid

/-- The name and the path of a record, if it has a path. -/
def recordEvidence : PyValue → Option PyValue
  | .dict record =>
    if "path" ∈ record.map Prod.fst then
      some (.dict [("name", (record.lookup "name").getD .none),
        ("path", (record.lookup "path").getD .none)])
    else none
  | _ => none

/-- `_backup_roots_from_metadata`; a record without a path is one of an older
    backup, whose roots are looked for again. -/
def backupRootsFromMetadata :
    Except Error (List StateRoot) := do
  match metadata.lookup "state_roots" with
  | some (.list rawRecords) =>
    let evidence := rawRecords.filterMap recordEvidence
    if evidence.length ≠ rawRecords.length then
      stateRoots host.fs host.layout (← rawFeatures metadata)
    else validateBackupRootEvidence host (.list evidence)
  | _ => throw .recordsMissing

/-- The features that `_extras` knows. -/
def supportedFeatures : List String :=
  ["dashboard", "nomadnet", "lora", "sensors", "meshtastic", "meshcore", "space", "gps", "adsb",
    "shared-rnsd", "watchdog", "captive-portal", "offline-tools", "chrony-control"]

/-- `_backup_features` -/
def backupFeatures : Except Error (List String) := do
  let raw ← rawFeatures metadata
  let features := raw.dedup.insertionSort (· ≤ ·)
  if ¬ features ⊆ supportedFeatures then
    throw (.unknownFeatures (features.filter (· ∉ supportedFeatures)))
  return features

/-- A root with the state of its copy: whether it is present, and its manifest. -/
abbrev RootRecord := StateRoot × Bool × List PyValue

/-- `{root.name: root for root in roots}` -/
def byName (roots : List StateRoot) : Dict String StateRoot :=
  roots.foldl (fun d root => d.set root.name root) ∅

/-- `isinstance(item, dict)` -/
def isObject : PyValue → Bool
  | .dict _ => true
  | _ => false

/-- A manifest, if it is a list of objects. -/
def manifest? : PyValue → Option (List PyValue)
  | .list l => if l.all isObject then some l else none
  | _ => none

/-- One record is checked and added to those before it. -/
def restoreRecord (allowed : Dict String StateRoot) (persistedPaths : Bool)
    (records : List RootRecord) : PyValue → Except Error (List RootRecord)
  | .dict record => do
    let name := (record.lookup "name").getD .none
    match name with
    | .str s =>
      match allowed.get? s with
      | none => throw (.invalidRoot name)
      | some root =>
        if s ∈ records.map (·.1.name) then throw (.invalidRoot name)
        if persistedPaths then
          match (record.lookup "path").getD .none with
          | .str rawPath =>
            if text (← resolve host.fs root.path) ≠ rawPath then throw (.pathEvidenceChanged s)
          | _ => throw (.pathEvidenceChanged s)
        match (record.lookup "present").getD .none,
            manifest? ((record.lookup "manifest").getD .none) with
        | .bool present, some manifest =>
          if present = false ∧ manifest ≠ [] then throw (.absentWithManifest s)
          return records ++ [(root, present, manifest)]
        | _, _ => throw (.recordInvalid s)
    | _ => throw (.invalidRoot name)
  | _ => throw .recordNotAnObject

/-- The records of a backup of the oldest kind, which holds no others. -/
def restoreOldest (allowed : Dict String StateRoot) (records : List RootRecord) (name : String) :
    Except Error (List RootRecord) :=
  match host.backupDirectory name with
  | none => .ok records
  | some none => .error (.invalidBackupDirectory name)
  | some (some manifest) =>
    match allowed.get? name with
    | some root => .ok (records ++ [(root, true, manifest)])
    | none => .error (.invalidRoot (.str name))

/-- `_restore_records` -/
def restoreRecords :
    Except Error (List RootRecord × Dict String StateRoot) := do
  match (metadata.lookup "state_roots").getD .none with
  | .none =>
    let allowed := byName (← stateRoots host.fs host.layout ["nomadnet"])
    return (← ["etc", "data"].foldlM (restoreOldest host allowed) [], allowed)
  | .list rawRecords =>
    match metadata.lookup "schema" with
    | some (.int 2) =>
      let features ← backupFeatures metadata
      let persistedPaths := rawRecords.all fun record => (recordEvidence record).isSome
      let (allowed, expectedNames) ←
        if persistedPaths then do
          let allowed := byName (← backupRootsFromMetadata host metadata)
          pure (allowed, allowed.keys)
        else do
          let allowed := byName (← stateRoots host.fs host.layout ["nomadnet"])
          pure (allowed, (← stateRoots host.fs host.layout features).map (·.name))
      let records ← rawRecords.foldlM (restoreRecord host allowed persistedPaths) []
      let seen := records.map (·.1.name)
      if ¬ (seen ⊆ expectedNames ∧ expectedNames ⊆ seen) then
        throw (.incomplete (expectedNames.filter (· ∉ seen)) (seen.filter (· ∉ expectedNames)))
      return (records, allowed)
    | _ => throw .unsupportedSchema
  | _ => throw .unsupportedSchema

end Reading

end ReticulumPi.Admin
