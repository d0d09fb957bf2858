import ReticulumPi.Lib.Dict
import Mathlib.Data.List.Sort

/-!
# Database migrations

`migrations.py`: a target is a SQLite file with the complete, ordered list of
its migrations. Applying the pending ones is tried on a clone of the file
first; then the file is backed up and migrated in one transaction, and what
raises after the backup restores it. The migrations applied are recorded in
`PRAGMA user_version` and in the table `reticulumpi_migrations`. The older
runner of `app.py` keeps no such table.

What SQL does is a parameter (`Sqlite`), and so are the steps at which an
exception occurs besides those it must occur at, and what other connections
write meanwhile. The paths, the locking and the free space come in as one of
these steps; pruning the old backups once the migration is complete is left
out, and the restoration of a backup is taken to succeed.
-/

namespace ReticulumPi.Migrations

/-! ## Databases -/

/-- The contents of a database: its `user_version`, the version and checksum of
    each row of its table `reticulumpi_migrations`, if it has one, and the rest. -/
structure Database (D : Type) where
  userVersion : ℤ
  metadata : Option (Dict ℤ String)
  data : D

/-- What the program relies on: `execute` gives the contents after a statement,
    `none` if it raises; `integrity` is the verdict of `PRAGMA integrity_check`. -/
structure Sqlite (D : Type) where
  execute : String → Database D → Option (Database D)
  integrity : Database D → Bool
  /-- The rest of the contents of a new database. -/
  empty : D
  /-- The checksum of a text, `sha256(...).hexdigest()`. -/
  sha256 : String → String

variable {D : Type}

/-- A new database. -/
def Sqlite.fresh (sql : Sqlite D) : Database D := ⟨0, none, sql.empty⟩

/-! ## Migrations -/

/-- `Migration`. -/
structure Migration where
  version : ℕ
  name : String
  statements : List String
  checksum : String

/-- `calculated_checksum`. -/
def Migration.calculatedChecksum (m : Migration) (sql : Sqlite D) : String :=
  sql.sha256 ("\x00".intercalate (toString m.version :: m.name :: m.statements))

/-- `stable_checksum`. -/
def Migration.stableChecksum (m : Migration) (sql : Sqlite D) : String :=
  if m.checksum ≠ "" then m.checksum else m.calculatedChecksum sql

/-- `MigrationTarget`; its versions are contiguous and ordered. -/
structure MigrationTarget where
  name : String
  migrations : List Migration
  versions : migrations.map (·.version) = List.range' 1 migrations.length

/-- A step at which an exception can occur. -/
inductive Step
  /-- The checks of the path, the lock of the target, and the free space. -/
  | lock
  | dryRun
  | backup
  | connect
  | recheck
  | begin
  | statement (version index : ℕ)
  | metadata (version : ℕ)
  | commit
  | validation
  deriving DecidableEq

/-- What is raised. -/
inductive Error
  | newer (current : ℤ) (supported : ℕ)
  | unknownVersion (version : ℤ)
  | checksumChanged (version : ℤ)
  | metadataMismatch (current : ℤ) (recorded : List ℤ)
  | versionChanged
  /-- Whatever the step raises, SQLite's errors included. -/
  | failed (step : Step)
  deriving DecidableEq

/-- `l[i:]`. -/
def sliceFrom {α : Type} (l : List α) (i : ℤ) : List α :=
  l.drop (if i < 0 then l.length - i.natAbs else i.toNat)

/-- `list(range(1, k + 1))`. -/
def rangeTo (k : ℤ) : List ℤ := (List.range' 1 k.toNat).map Int.ofNat

namespace Sqlite

variable (sql : Sqlite D) (target : MigrationTarget)

/-! ## The history of a database -/

/-- The check of a row of the history. -/
def checkRow (row : ℤ × String) : Except Error Unit :=
  if row.1 < 1 then .error (.unknownVersion row.1)
  else match target.migrations[(row.1 - 1).toNat]? with
    | none => .error (.unknownVersion row.1)
    | some m =>
      if row.2 ≠ m.stableChecksum sql then .error (.checksumChanged row.1) else .ok ()

/-- `_validate_history`, giving the current version. -/
def validateHistory (db : Database D) : Except Error ℤ :=
  if (target.migrations.length : ℤ) < db.userVersion then
    .error (.newer db.userVersion target.migrations.length)
  else match db.metadata with
    | none => .ok db.userVersion
    | some table => do
      let rows := table.entries.insertionSort fun a b => a.1 ≤ b.1
      forM rows (checkRow sql target)
      if rows.map Prod.fst ≠ rangeTo db.userVersion then
        throw (.metadataMismatch db.userVersion (rows.map Prod.fst))
      return db.userVersion

/-! ## Applying migrations -/

/-- Execute the statements of a migration, of which `index` are done. -/
def executeAll (fault : Step → Bool) (version : ℕ) :
    ℕ → List String → Database D → Except Error (Database D)
  | _, [], db => .ok db
  | index, statement :: statements, db =>
    if fault (.statement version index) then .error (.failed (.statement version index))
    else match sql.execute statement db with
      | none => .error (.failed (.statement version index))
      | some db => executeAll fault version (index + 1) statements db

variable (fault : Step → Bool)

/-- Execute a migration and record it; its version is the key of its row. -/
def applyMigration (db : Database D) (m : Migration) :
    Except Error (Database D) := do
  let db ← sql.executeAll fault m.version 0 m.statements db
  match db.metadata with
  | none => throw (.failed (.metadata m.version))
  | some table =>
    if fault (.metadata m.version) ∨ (m.version : ℤ) ∈ table.keys then
      throw (.failed (.metadata m.version))
    return { db with
      metadata := some (table.set m.version (m.stableChecksum sql))
      userVersion := m.version }

/-- `_apply`: the versions applied, and the contents once they are committed;
    what raises is rolled back. -/
def apply (current : ℤ) (db : Database D) :
    Except Error (List ℕ × Database D) :=
  let pending := sliceFrom target.migrations current
  if pending = [] then .ok ([], db)
  else do
    if fault .begin then throw (.failed .begin)
    let db ← pending.foldlM (sql.applyMigration fault)
      { db with metadata := some (db.metadata.getD ∅) }
    if fault .commit then throw (.failed .commit)
    return (pending.map (·.version), db)

/-- `_dry_run`, on a clone of the file if it exists. -/
def dryRun (file : Option (Database D)) : Except Error (ℤ × List ℕ) := do
  if file.any fun db => !sql.integrity db then throw (.failed .dryRun)
  let current ← sql.validateHistory target (file.getD sql.fresh)
  let (applied, db) ← sql.apply target (fun _ => false) current (file.getD sql.fresh)
  if !sql.integrity db then throw (.failed .dryRun)
  return (current, applied)

/-! ## Migrating a target -/

/-- When other connections write: up to the backup, up to the transaction, and
    from its end until the call is done. -/
inductive Moment
  | beforeBackup
  | beforeTransaction
  | afterTransaction
  deriving DecidableEq

/-- What other connections make of the file meanwhile; `none` is no file. -/
abbrev Writes (D : Type) := Moment → Option (Database D) → Option (Database D)

/-- No other connection writes. -/
def quiet : Writes D := fun _ => id

/-- `MigrationResult`. -/
structure MigrationResult where
  target : String
  fromVersion : ℤ
  toVersion : ℤ
  applied : List ℕ
  dryRun : Bool
  deriving DecidableEq

/-- How a call ends: its result, the file it leaves, and the file that the
    writes of the others alone would have left. -/
structure Outcome (D : Type) where
  result : Except Error MigrationResult
  file : Option (Database D)
  withoutCall : Option (Database D)

/-- `migrate_target` up to the end of the backup, which `file'` is read for: the
    version and the backup, if there is something to apply for good. -/
def prepare (dryRunOnly : Bool) (file file' : Option (Database D)) :
    Except Error (MigrationResult ⊕ ℤ × Option (Database D)) := do
  if fault .lock then throw (.failed .lock)
  if fault .dryRun then throw (.failed .dryRun)
  let (current, applied) ← sql.dryRun target file
  if dryRunOnly ∨ applied = [] then
    return .inl ⟨target.name, current, current + applied.length, applied, dryRunOnly⟩
  match file with
  | none => return .inr (current, none)
  | some _ =>
    let backup := file'.getD sql.fresh
    if fault .backup ∨ !sql.integrity backup then throw (.failed .backup)
    return .inr (current, some backup)

/-- The migration of the live database, up to the end of its transaction. -/
def migrateLive (current : ℤ) (db : Database D) :
    Except Error (List ℕ × Database D) := do
  if fault .connect then throw (.failed .connect)
  if fault .recheck then throw (.failed .recheck)
  let liveCurrent ← sql.validateHistory target db
  if liveCurrent ≠ current then throw .versionChanged
  sql.apply target fault current db

/-- `migrate_target`. -/
def migrateTarget (writes : Writes D) (dryRunOnly : Bool)
    (file : Option (Database D)) : Outcome D :=
  let file₁ := writes .beforeBackup file
  match sql.prepare target fault dryRunOnly file file₁ with
  | .error e => ⟨.error e, file₁, file₁⟩
  | .ok (.inl result) => ⟨.ok result, file₁, file₁⟩
  | .ok (.inr (current, backup)) =>
    let file₂ := writes .beforeTransaction file₁
    let withoutCall := writes .afterTransaction file₂
    match sql.migrateLive target fault current (file₂.getD sql.fresh) with
    -- The backup is restored; a file that did not exist at first is removed.
    | .error e => ⟨.error e, backup, withoutCall⟩
    | .ok (applied, db) =>
      if fault .validation ∨ !sql.integrity db then
        ⟨.error (.failed .validation), backup, withoutCall⟩
      else
        ⟨.ok ⟨target.name, current, current + applied.length, applied, false⟩,
          writes .afterTransaction (some db), withoutCall⟩

/-! ## The older runner -/

/-- `l[i]`. -/
def item? {α : Type} (l : List α) (i : ℤ) : Option α :=
  if i < 0 then if l.length < i.natAbs then none else l[l.length - i.natAbs]? else l[i.toNat]?

/-- Run the scripts of the versions that follow `current`, each in a transaction
    of its own; `none` if one raises. -/
def runScripts (scripts : List String) (current : ℤ) :
    ℕ → Database D → Option (Database D)
  | 0, db => some db
  | n + 1, db => do
    let script ← item? scripts current
    let db ← sql.execute script db
    runScripts scripts (current + 1) n { db with userVersion := current + 1 }

/-- `run_db_migrations` of `app.py`, where it does not raise. -/
def runDbMigrations (scripts : List String) (db : Database D) : Option (Database D) :=
  sql.runScripts scripts db.userVersion (scripts.length - db.userVersion).toNat db

/-- A database of nothing but the statements executed on it. -/
def transcript : Sqlite (List String) where
  execute statement db := some { db with data := db.data ++ [statement] }
  integrity _ := true
  empty := []
  sha256 := id

end Sqlite

end ReticulumPi.Migrations
