import ReticulumPi.Lib.Fallible
import ReticulumPi.Migrations.Target

/-!
# Failed migrations

A migration that raises leaves the file as its backup has it, whichever step
raised: one that found the lock taken by another writer or the version changed
by another runner as well as one whose transaction was rolled back already.
What other connections committed since the backup is lost, so that the file is
as it would be without the call only if that was nothing, or if the call raised
before it got as far.
-/

namespace ReticulumPi.Migrations

namespace Sqlite

variable {D : Type} {sql : Sqlite D} {target : MigrationTarget} {fault : Step → Bool}

/-- The call raises no later than at the backup: at the checks and locks, in the
    dry run, or while the file is backed up. -/
def RaisesEarly (sql : Sqlite D) (target : MigrationTarget) (fault : Step → Bool)
    (writes : Writes D) (file : Option (Database D)) : Prop :=
  fault .lock = true ∨ fault .dryRun = true ∨ (∃ e, sql.dryRun target file = .error e) ∨
    file.isSome ∧ (fault .backup = true ∨
      sql.integrity ((writes .beforeBackup file).getD sql.fresh) = false)

/-- What the writes of the others since the backup leave is what the backup has;
    of a target that did not exist, nothing. -/
def NothingLost (sql : Sqlite D) (writes : Writes D) (file : Option (Database D)) : Prop :=
  writes .afterTransaction (writes .beforeTransaction (writes .beforeBackup file)) =
    file.map fun _ => (writes .beforeBackup file).getD sql.fresh

theorem raisesEarly_of_prepare {writes : Writes D} {dryRunOnly : Bool}
    {file : Option (Database D)} {e : Error}
    (h : sql.prepare target fault dryRunOnly file (writes .beforeBackup file) = .error e) :
    sql.RaisesEarly target fault writes file := by
  by_contra hearly
  simp only [RaisesEarly, not_or, not_exists, not_and, Bool.not_eq_true,
    Bool.not_eq_false] at hearly
  obtain ⟨hlock, hdry, hdryRun, hbackup⟩ := hearly
  rcases hrun : sql.dryRun target file with e' | ⟨current, applied⟩
  · exact hdryRun e' hrun
  · unfold prepare at h
    simp only [hlock, hdry, hrun, Bool.false_eq_true, if_false] at h
    rcases file with _ | db
    · by_cases hnone : dryRunOnly = true ∨ applied = []
      all_goals simp [hnone, bind, Except.bind, pure, Except.pure] at h
    · obtain ⟨hb, hi⟩ := hbackup rfl
      by_cases hnone : dryRunOnly = true ∨ applied = []
      · simp [hnone, bind, Except.bind, pure, Except.pure] at h
      · simp [hnone, hb, hi, bind, Except.bind, pure, Except.pure] at h

/-- A call that goes on to the live database has a backup of the file, if there was one. -/
theorem prepare_backup {writes : Writes D} {dryRunOnly : Bool} {file backup : Option (Database D)}
    {current : ℤ} (h : sql.prepare target fault dryRunOnly file (writes .beforeBackup file) =
      .ok (.inr (current, backup))) :
    ¬sql.RaisesEarly target fault writes file ∧
      backup = file.map fun _ => (writes .beforeBackup file).getD sql.fresh := by
  unfold prepare at h
  obtain ⟨hlock, h⟩ := Fallible.guard_ok h
  obtain ⟨hdry, h⟩ := Fallible.guard_ok h
  obtain ⟨⟨_, applied⟩, hrun, h⟩ := Fallible.bind_ok h
  dsimp only at h
  split at h
  · cases h
  · rcases file with _ | db
    · cases h
      refine ⟨?_, rfl⟩
      rintro (hl | hd | ⟨e, he⟩ | ⟨hs, _⟩)
      · exact hlock hl
      · exact hdry hd
      · rw [hrun] at he
        cases he
      · cases hs
    · obtain ⟨hbackup, h⟩ := Fallible.guard_ok h
      cases h
      refine ⟨?_, rfl⟩
      rintro (hl | hd | ⟨e, he⟩ | ⟨_, hb | hi⟩)
      · exact hlock hl
      · exact hdry hd
      · rw [hrun] at he
        cases he
      · exact hbackup (.inl hb)
      · exact hbackup (.inr (by rw [hi]; rfl))

/-- A migration that raises leaves the file as it would be without the call if
    and only if it raised no later than at the backup, or other connections
    committed nothing since the backup that the backup does not have. -/
theorem failed_migration_undone_iff {writes : Writes D} {dryRunOnly : Bool}
    {file : Option (Database D)} {e : Error}
    (h : (sql.migrateTarget target fault writes dryRunOnly file).result = .error e) :
    (sql.migrateTarget target fault writes dryRunOnly file).file =
        (sql.migrateTarget target fault writes dryRunOnly file).withoutCall ↔
      sql.RaisesEarly target fault writes file ∨ sql.NothingLost writes file := by
  unfold migrateTarget at h ⊢
  dsimp only at h ⊢
  rcases hprepare : sql.prepare target fault dryRunOnly file (writes .beforeBackup file) with
    e' | result | ⟨current, backup⟩
  · rw [hprepare] at h
    exact ⟨fun _ => .inl (raisesEarly_of_prepare hprepare), fun _ => rfl⟩
  · rw [hprepare] at h
    cases h
  · rw [hprepare] at h
    obtain ⟨hearly, hbackup⟩ := prepare_backup hprepare
    have hlost : backup = writes .afterTransaction (writes .beforeTransaction
        (writes .beforeBackup file)) ↔
          sql.RaisesEarly target fault writes file ∨ sql.NothingLost writes file := by
      rw [hbackup, or_iff_right hearly]
      exact eq_comm
    -- Whatever raises after the backup, the backup is restored.
    dsimp only at h ⊢
    rcases hlive : sql.migrateLive target fault current
      ((writes .beforeTransaction (writes .beforeBackup file)).getD sql.fresh) with
        e' | ⟨applied, db⟩
    · exact hlost
    · rw [hlive] at h
      dsimp only at h ⊢
      split_ifs at h ⊢
      · exact hlost

end Sqlite

/-! ## Writes that are lost -/

/-- A target with one migration. -/
def oneMigration : MigrationTarget where
  name := "messages"
  migrations := [⟨1, "create", ["CREATE TABLE messages(body TEXT)"], ""⟩]
  versions := rfl

/-- Another connection inserts a row between the backup and the transaction. -/
def insertBeforeTransaction : Sqlite.Writes (List String)
  | .beforeTransaction => Option.map fun db => { db with data := db.data ++ ["INSERT"] }
  | _ => id

open Sqlite in
theorem failed_migration_undone_iff_locked :
    ¬((transcript.migrateTarget oneMigration (· = .begin) insertBeforeTransaction false
        (some ⟨0, none, []⟩)).file =
      (transcript.migrateTarget oneMigration (· = .begin) insertBeforeTransaction false
        (some ⟨0, none, []⟩)).withoutCall) := by
  rw [failed_migration_undone_iff (e := .failed .begin) rfl]
  rintro (hearly | hlost)
  · rcases hearly with h | h | ⟨e, h⟩ | ⟨_, h | h⟩
    all_goals cases h
  · have : some (["INSERT"] : List String) = some [] :=
      congrArg (Option.map Database.data) hlost
    cases this

open Sqlite in
/-- The transaction cannot begin, as another connection is writing; what that
    one commits is then overwritten with the backup. -/
theorem failed_migration_loses_insert :
    ∃ (sql : Sqlite (List String)) (target : MigrationTarget) (fault : Step → Bool)
      (writes : Writes (List String)) (file : Option (Database (List String))) (e : Error),
      (sql.migrateTarget target fault writes false file).result = .error e ∧
        (sql.migrateTarget target fault writes false file).file ≠
          (sql.migrateTarget target fault writes false file).withoutCall := by
  refine ⟨transcript, oneMigration, (· = .begin), insertBeforeTransaction, some ⟨0, none, []⟩,
    .failed .begin, rfl, fun h => ?_⟩
  have : some ([] : List String) = some ["INSERT"] := congrArg (Option.map Database.data) h
  cases this

end ReticulumPi.Migrations
