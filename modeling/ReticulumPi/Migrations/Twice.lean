import ReticulumPi.Lib.Fallible
import ReticulumPi.Migrations.Target
import Mathlib.Data.List.Range

/-!
# Migrating a second time

A database is accepted if its version is not newer than its target and its
table of applied migrations, if it has one, lists the versions up to its own
with their checksums (`History`). Applying the pending migrations adds their
rows. What was applied before there was a table gets no row: a database that
the older runner left between two versions is accepted and migrated, and
rejected ever after.
-/

namespace ReticulumPi.Migrations

open List

/-! ## Ranges -/

theorem mem_rangeTo {k v : ℤ} : v ∈ rangeTo k ↔ 1 ≤ v ∧ v ≤ k := by
  rw [rangeTo, List.mem_map]
  constructor
  · rintro ⟨i, hi, rfl⟩
    rw [mem_range'_1] at hi
    simp only [Int.ofNat_eq_natCast]
    omega
  · rintro ⟨h₁, h₂⟩
    exact ⟨v.toNat, mem_range'_1.2 (by omega), by simp only [Int.ofNat_eq_natCast]; omega⟩

theorem pairwise_rangeTo (k : ℤ) : (rangeTo k).Pairwise (· < ·) :=
  Pairwise.map _ (fun _ _ h => Int.ofNat_lt.2 h) pairwise_lt_range'

/-- The keys of a table, sorted, are the numbers up to `k` if it has just these. -/
theorem sorted_keys_eq_rangeTo {table : Dict ℤ String} {k : ℤ} :
    (table.entries.insertionSort fun a b => a.1 ≤ b.1).map Prod.fst = rangeTo k ↔
      ∀ v, v ∈ table.keys ↔ 1 ≤ v ∧ v ≤ k := by
  have hperm : ((table.entries.insertionSort fun a b => a.1 ≤ b.1).map Prod.fst).Perm table.keys :=
    (perm_insertionSort _ _).map Prod.fst
  constructor
  · intro h v
    rw [← hperm.mem_iff, h, mem_rangeTo]
  · intro h
    have hkeys : table.keys.Perm (rangeTo k) :=
      (perm_ext_iff_of_nodup table.nodup ((pairwise_rangeTo k).imp fun h => h.ne)).2
        fun v => (h v).trans mem_rangeTo.symm
    have hsorted : ((table.entries.insertionSort fun a b => a.1 ≤ b.1).map Prod.fst).Pairwise
        (· ≤ ·) :=
      pairwise_map.2 (pairwise_insertionSort (fun a b : ℤ × String => a.1 ≤ b.1) _)
    exact (hperm.trans hkeys).eq_of_pairwise' hsorted ((pairwise_rangeTo k).imp fun h => h.le)

namespace MigrationTarget

variable (target : MigrationTarget)

theorem version_of_getElem? {i : ℕ} {m : Migration} (h : target.migrations[i]? = some m) :
    m.version = i + 1 := by
  have hmap : (target.migrations.map (·.version))[i]? = some m.version := by
    rw [getElem?_map, h]
    rfl
  rw [target.versions] at hmap
  obtain ⟨hi, hv⟩ := List.getElem?_eq_some_iff.1 hmap
  rw [getElem_range'] at hv
  omega

/-- The migrations after the first `k` are those of a later version. -/
theorem mem_drop {k : ℕ} {m : Migration} :
    m ∈ target.migrations.drop k ↔ m ∈ target.migrations ∧ k < m.version := by
  rw [mem_iff_getElem?, mem_iff_getElem?]
  constructor
  · rintro ⟨i, hi⟩
    rw [getElem?_drop] at hi
    exact ⟨⟨k + i, hi⟩, by rw [target.version_of_getElem? hi]; omega⟩
  · rintro ⟨⟨i, hi⟩, hk⟩
    rw [target.version_of_getElem? hi] at hk
    refine ⟨i - k, ?_⟩
    rwa [getElem?_drop, Nat.add_sub_cancel' (by omega)]

theorem version_bounds {m : Migration} (h : m ∈ target.migrations) :
    1 ≤ m.version ∧ m.version ≤ target.migrations.length := by
  obtain ⟨i, hi⟩ := mem_iff_getElem?.1 h
  rw [target.version_of_getElem? hi]
  have := (List.getElem?_eq_some_iff.1 hi).1
  omega

theorem exists_version {v : ℕ} (h₁ : 1 ≤ v) (h₂ : v ≤ target.migrations.length) :
    ∃ m ∈ target.migrations, m.version = v := by
  have hi : target.migrations[v - 1]? = some target.migrations[v - 1] :=
    getElem?_eq_getElem (by omega)
  exact ⟨_, getElem_mem _, by rw [target.version_of_getElem? hi]; omega⟩

end MigrationTarget

namespace Sqlite

variable {D : Type} {sql : Sqlite D} {target : MigrationTarget} {fault : Step → Bool}
  {db db' : Database D}

/-! ## Accepted histories -/

/-- The version is supported, and the table of applied migrations, if there is
    one, has a row for each version up to it, with the checksum of its migration. -/
structure History (sql : Sqlite D) (target : MigrationTarget) (db : Database D) : Prop where
  le : db.userVersion ≤ target.migrations.length
  row : ∀ table, db.metadata = some table → ∀ row ∈ table.entries,
    ∃ m ∈ target.migrations, (m.version : ℤ) = row.1 ∧ m.stableChecksum sql = row.2
  version : ∀ table, db.metadata = some table →
    ∀ v, v ∈ table.keys ↔ 1 ≤ v ∧ v ≤ db.userVersion

theorem checkRow_ok_iff {row : ℤ × String} : sql.checkRow target row = .ok () ↔
    ∃ m ∈ target.migrations, (m.version : ℤ) = row.1 ∧ m.stableChecksum sql = row.2 := by
  unfold checkRow
  rw [Fallible.ite_ok_iff]
  constructor
  · rintro ⟨hpos, h⟩
    rcases hm : target.migrations[(row.1 - 1).toNat]? with _ | m
    · rw [hm] at h
      cases h
    · rw [hm] at h
      dsimp only at h
      rw [Fallible.ite_ok_iff, not_not] at h
      refine ⟨m, mem_of_getElem? hm, ?_, h.1.symm⟩
      rw [target.version_of_getElem? hm]
      omega
  · rintro ⟨m, hm, hv, hc⟩
    obtain ⟨i, hi⟩ := mem_iff_getElem?.1 hm
    have hversion := target.version_of_getElem? hi
    have hindex : (row.1 - 1).toNat = i := by omega
    refine ⟨by omega, ?_⟩
    rw [hindex, hi]
    dsimp only
    rw [if_neg (not_not.2 hc.symm)]

theorem validateHistory_ok_iff {v : ℤ} :
    sql.validateHistory target db = .ok v ↔ v = db.userVersion ∧ sql.History target db := by
  unfold validateHistory
  rw [Fallible.ite_ok_iff, not_lt]
  rcases htable : db.metadata with _ | table
  · constructor
    · rintro ⟨hle, h⟩
      cases h
      exact ⟨rfl, hle, fun _ h => (by rw [htable] at h; cases h),
        fun _ h => (by rw [htable] at h; cases h)⟩
    · rintro ⟨rfl, h⟩
      exact ⟨h.le, rfl⟩
  · have hrows : (∀ row ∈ table.entries.insertionSort fun a b => a.1 ≤ b.1,
        sql.checkRow target row = .ok ()) ↔ ∀ row ∈ table.entries,
          ∃ m ∈ target.migrations, (m.version : ℤ) = row.1 ∧ m.stableChecksum sql = row.2 :=
      forall_congr' fun row => by rw [mem_insertionSort, checkRow_ok_iff]
    dsimp only
    rw [Fallible.seq_ok_iff, Fallible.forM_ok_iff, hrows]
    constructor
    · rintro ⟨hle, hrow, h⟩
      obtain ⟨hsorted, h⟩ := Fallible.guard_ok h
      cases h
      rw [not_not, sorted_keys_eq_rangeTo] at hsorted
      refine ⟨rfl, hle, fun t ht => ?_, fun t ht => ?_⟩
      · rw [htable] at ht
        cases ht
        exact hrow
      · rw [htable] at ht
        cases ht
        exact hsorted
    · rintro ⟨rfl, h⟩
      refine ⟨h.le, h.row table htable, ?_⟩
      have hsorted := sorted_keys_eq_rangeTo.2 (h.version table htable)
      rw [hsorted]
      simp [pure, Except.pure]

/-! ## Applying migrations -/

/-- The statements of the target leave the table of applied migrations alone. -/
def KeepsMetadata (sql : Sqlite D) (target : MigrationTarget) : Prop :=
  ∀ m ∈ target.migrations, ∀ statement ∈ m.statements, ∀ db db',
    sql.execute statement db = some db' → db'.metadata = db.metadata

theorem executeAll_metadata {version index : ℕ} {statements : List String}
    (hkeeps : ∀ statement ∈ statements, ∀ db db', sql.execute statement db = some db' →
      db'.metadata = db.metadata)
    (h : sql.executeAll fault version index statements db = .ok db') :
    db'.metadata = db.metadata := by
  induction statements generalizing index db with
  | nil =>
    cases h
    rfl
  | cons statement statements ih =>
    unfold executeAll at h
    rw [Fallible.ite_ok_iff] at h
    rcases hexec : sql.execute statement db with _ | db₁
    · rw [hexec] at h
      cases h.2
    · rw [hexec] at h
      rw [ih (fun s hs => hkeeps s (mem_cons_of_mem _ hs)) h.2]
      exact hkeeps statement mem_cons_self db db₁ hexec

/-- A migration applied has added its row. -/
theorem applyMigration_ok {m : Migration} (hkeeps : ∀ statement ∈ m.statements, ∀ db db',
      sql.execute statement db = some db' → db'.metadata = db.metadata)
    (h : sql.applyMigration fault db m = .ok db') :
    ∃ table, db.metadata = some table ∧ (m.version : ℤ) ∉ table.keys ∧
      db'.metadata = some (table.set m.version (m.stableChecksum sql)) ∧
        db'.userVersion = m.version := by
  obtain ⟨db₁, hexec, h⟩ := Fallible.bind_ok h
  have hmeta := executeAll_metadata hkeeps hexec
  rcases htable : db₁.metadata with _ | table
  · rw [htable] at h
    cases h
  · rw [htable] at h
    obtain ⟨hnew, h⟩ := Fallible.guard_ok h
    cases h
    exact ⟨table, hmeta ▸ htable, fun hmem => hnew (.inr hmem), rfl, rfl⟩

/-- Migrations applied have added their rows, and the last one has set the version. -/
theorem foldlM_applyMigration_ok {pending : List Migration} {table : Dict ℤ String}
    (hkeeps : ∀ m ∈ pending, ∀ statement ∈ m.statements, ∀ db db',
      sql.execute statement db = some db' → db'.metadata = db.metadata)
    (htable : db.metadata = some table)
    (h : pending.foldlM (sql.applyMigration fault) db = .ok db') :
    ∃ table', db'.metadata = some table' ∧
      (∀ row, row ∈ table'.entries ↔ row ∈ table.entries ∨
        ∃ m ∈ pending, row = ((m.version : ℤ), m.stableChecksum sql)) ∧
      ∀ m, pending.getLast? = some m → db'.userVersion = m.version := by
  induction pending generalizing db table with
  | nil =>
    cases h
    exact ⟨table, htable, fun row => by simp, fun m hm => by simp at hm⟩
  | cons m pending ih =>
    rw [foldlM_cons] at h
    obtain ⟨db₁, hm, h⟩ := Fallible.bind_ok h
    obtain ⟨table₀, htable₀, hnew, htable₁, hversion⟩ :=
      applyMigration_ok (hkeeps m mem_cons_self) hm
    rw [htable] at htable₀
    cases htable₀
    obtain ⟨table', htable', hrows, hlast⟩ :=
      ih (fun m' hm' => hkeeps m' (mem_cons_of_mem _ hm')) htable₁ h
    refine ⟨table', htable', fun row => ?_, fun m' hm' => ?_⟩
    · have hnone : table.get? m.version = none :=
        Option.eq_none_iff_forall_ne_some.2 fun c hc => hnew (Dict.mem_keys.2 ⟨c, hc⟩)
      rw [hrows, Dict.entries_set_of_none hnone, mem_append, mem_singleton, or_assoc,
        exists_mem_cons_iff]
    · rcases eq_nil_or_concat' pending with rfl | ⟨l, b, rfl⟩
      · -- The only migration sets the version.
        cases h
        cases hm'
        exact hversion
      · rw [← cons_append, getLast?_concat] at hm'
        exact hlast m' (getLast?_concat.trans hm')

theorem sliceFrom_of_nonneg (target : MigrationTarget) {k : ℤ} (hk : 0 ≤ k) :
    sliceFrom target.migrations k = target.migrations.drop k.toNat := by
  rw [sliceFrom, if_neg (not_lt.2 hk)]

variable {applied : List ℕ}

/-- Applying the pending migrations of a database leaves it at the last version,
    with their rows besides those it had. -/
theorem apply_ok (hkeeps : sql.KeepsMetadata target) (hversion : 0 ≤ db.userVersion)
    (h : sql.apply target fault db.userVersion db = .ok (applied, db'))
    (hpending : applied ≠ []) : db.userVersion < target.migrations.length ∧
      db'.userVersion = target.migrations.length ∧ ∃ table', db'.metadata = some table' ∧
        ∀ row, row ∈ table'.entries ↔ row ∈ (db.metadata.getD ∅).entries ∨
          ∃ m ∈ target.migrations, db.userVersion < m.version ∧
            row = ((m.version : ℤ), m.stableChecksum sql) := by
  have hslice := sliceFrom_of_nonneg target hversion
  rw [apply, hslice] at h
  have hne : target.migrations.drop db.userVersion.toNat ≠ [] := fun hnil => by
    rw [if_pos hnil] at h
    cases h
    exact hpending rfl
  rw [if_neg hne] at h
  obtain ⟨_, h⟩ := Fallible.guard_ok h
  obtain ⟨db₁, hfold, h⟩ := Fallible.bind_ok h
  obtain ⟨_, h⟩ := Fallible.guard_ok h
  cases h
  have hlt : db.userVersion.toNat < target.migrations.length :=
    drop_eq_nil_iff.not.1 hne |> not_le.1
  obtain ⟨table', htable', hrows, hlast⟩ := foldlM_applyMigration_ok
    (fun m hm => hkeeps m (target.mem_drop.1 hm).1) rfl hfold
  refine ⟨by omega, ?_, table', htable', fun row => ?_⟩
  · -- The last of the pending migrations is the last of all.
    have hget : target.migrations[target.migrations.length - 1]? =
        some target.migrations[target.migrations.length - 1] :=
      getElem?_eq_getElem (by omega)
    have hlast' : (target.migrations.drop db.userVersion.toNat).getLast? =
        some target.migrations[target.migrations.length - 1] := by
      rw [getLast?_drop, if_neg (not_le.2 hlt), getLast?_eq_getElem?, hget]
    rw [hlast _ hlast', target.version_of_getElem? hget]
    omega
  · rw [hrows]
    refine or_congr Iff.rfl ⟨?_, ?_⟩
    · rintro ⟨m, hm, rfl⟩
      obtain ⟨hm, hlt⟩ := target.mem_drop.1 hm
      exact ⟨m, hm, by omega, rfl⟩
    · rintro ⟨m, hm, hlt, rfl⟩
      exact ⟨m, target.mem_drop.2 ⟨hm, by omega⟩, rfl⟩

/-- The history that a migrated database has is accepted if it had one before,
    or none of its migrations was applied before. -/
theorem history_apply_iff (hkeeps : sql.KeepsMetadata target) (hversion : 0 ≤ db.userVersion)
    (hhistory : sql.History target db)
    (h : sql.apply target fault db.userVersion db = .ok (applied, db'))
    (hpending : applied ≠ []) :
    sql.History target db' ↔ db.userVersion = 0 ∨ db.metadata.isSome := by
  obtain ⟨hlt, hlast, table', htable', hrows⟩ := apply_ok hkeeps hversion h hpending
  have hkeys : ∀ v, v ∈ table'.keys ↔ v ∈ (db.metadata.getD ∅).keys ∨
      (db.userVersion < v ∧ v ≤ target.migrations.length) := by
    intro v
    rw [Dict.mem_keys, Dict.mem_keys]
    simp only [Dict.get?_eq_some_iff, hrows, exists_or]
    refine or_congr Iff.rfl ⟨?_, ?_⟩
    · rintro ⟨c, m, hm, hv, he⟩
      cases he
      have := target.version_bounds hm
      omega
    · rintro ⟨h₁, h₂⟩
      obtain ⟨m, hm, hmv⟩ := target.exists_version (v := v.toNat) (by omega) (by omega)
      exact ⟨m.stableChecksum sql, m, hm, by omega, by rw [hmv]; congr 1; omega⟩
  constructor
  · -- The first version has a row, though it was applied before there was a table.
    intro hhistory'
    rcases htable : db.metadata with _ | table
    · left
      have hone := (hkeys 1).1 ((hhistory'.version table' htable' 1).2
        ⟨le_rfl, by rw [hlast]; omega⟩)
      rw [htable, Option.getD_none] at hone
      rcases hone with hmem | ⟨hlt', _⟩
      · simp [Dict.mem_keys] at hmem
      · omega
    · exact .inr rfl
  · intro hcomplete
    have hold : ∀ v, v ∈ (db.metadata.getD ∅).keys ↔ 1 ≤ v ∧ v ≤ db.userVersion := by
      intro v
      rcases htable : db.metadata with _ | table
      · rw [htable] at hcomplete
        have hzero : db.userVersion = 0 := hcomplete.resolve_right Bool.false_ne_true
        rw [Option.getD_none, hzero]
        simp only [Dict.mem_keys, Dict.get?_empty, reduceCtorEq, exists_false, false_iff]
        omega
      · exact hhistory.version table htable v
    refine ⟨by rw [hlast], fun table ht row hrow => ?_, fun table ht v => ?_⟩
    · rw [htable'] at ht
      cases ht
      rcases (hrows row).1 hrow with hrow | ⟨m, hm, _, rfl⟩
      · rcases htable : db.metadata with _ | table
        · rw [htable] at hrow
          cases hrow
        · rw [htable] at hrow
          exact hhistory.row table htable row hrow
      · exact ⟨m, hm, rfl, rfl⟩
    · rw [htable'] at ht
      cases ht
      rw [hkeys, hold, hlast]
      omega

/-! ## Migrating twice -/

/-- A database is migrated: its history is accepted, its version is the last one,
    and migrating it once more applies nothing. -/
def Migrated (sql : Sqlite D) (target : MigrationTarget) (file : Option (Database D)) : Prop :=
  sql.validateHistory target (file.getD sql.fresh) = .ok (target.migrations.length : ℤ) ∧
    (file.getD sql.fresh).userVersion = target.migrations.length ∧
      ∃ result, (sql.migrateTarget target (fun _ => false) quiet false file).result = .ok result ∧
        result.applied = []

variable {file : Option (Database D)} {current : ℤ}

/-- A call whose dry run applies nothing succeeds, and applies nothing. -/
theorem migrateTarget_of_dryRun (h : sql.dryRun target file = .ok (current, [])) :
    ∃ result, (sql.migrateTarget target (fun _ => false) quiet false file).result = .ok result ∧
      result.applied = [] := by
  have hprepare : sql.prepare target (fun _ => false) false file file =
      .ok (.inl ⟨target.name, current, current + ([] : List ℕ).length, [], false⟩) := by
    unfold prepare
    rw [h]
    simp [bind, Except.bind, pure, Except.pure]
  refine ⟨⟨target.name, current, current + ([] : List ℕ).length, [], false⟩, ?_, rfl⟩
  unfold migrateTarget
  dsimp only [quiet, id]
  rw [hprepare]

/-- A database with an accepted history up to the last version is migrated. -/
theorem dryRun_of_history (hhistory : sql.History target (file.getD sql.fresh))
    (hlast : (file.getD sql.fresh).userVersion = target.migrations.length)
    (hfile : file.any (fun db => !sql.integrity db) = false)
    (hintegrity : sql.integrity (file.getD sql.fresh) = true) :
    sql.dryRun target file = .ok ((target.migrations.length : ℤ), []) := by
  have hvalid := validateHistory_ok_iff.2 ⟨rfl, hhistory⟩
  have hslice : sliceFrom target.migrations (target.migrations.length : ℤ) = [] := by
    rw [sliceFrom_of_nonneg target (Int.natCast_nonneg _), Int.toNat_natCast, drop_length]
  unfold dryRun
  rw [hvalid, hlast]
  simp [hfile, hslice, apply, hintegrity, bind, Except.bind, pure, Except.pure]

/-- What a dry run that succeeds has checked. -/
theorem dryRun_ok (h : sql.dryRun target file = .ok (current, applied)) :
    current = (file.getD sql.fresh).userVersion ∧ sql.History target (file.getD sql.fresh) ∧
      ∃ db', sql.apply target (fun _ => false) current (file.getD sql.fresh) =
        .ok (applied, db') := by
  rw [dryRun] at h
  obtain ⟨_, h⟩ := Fallible.guard_ok h
  obtain ⟨v, hv, h⟩ := Fallible.bind_ok h
  obtain ⟨⟨applied', db'⟩, happly, h⟩ := Fallible.bind_ok h
  obtain ⟨_, h⟩ := Fallible.guard_ok h
  cases h
  obtain ⟨hcurrent, hhistory⟩ := validateHistory_ok_iff.1 hv
  exact ⟨hcurrent, hhistory, db', happly⟩

theorem length_le_of_apply_nil (hversion : 0 ≤ db.userVersion)
    (h : sql.apply target fault db.userVersion db = .ok ([], db')) :
    (target.migrations.length : ℤ) ≤ db.userVersion := by
  rw [apply, sliceFrom_of_nonneg target hversion] at h
  by_cases hnil : target.migrations.drop db.userVersion.toNat = []
  · have := drop_eq_nil_iff.1 hnil
    omega
  · rw [if_neg hnil] at h
    obtain ⟨_, h⟩ := Fallible.guard_ok h
    obtain ⟨_, _, h⟩ := Fallible.bind_ok h
    obtain ⟨_, h⟩ := Fallible.guard_ok h
    exact absurd (map_eq_nil_iff.1 (Prod.mk.inj (Except.ok.inj h)).1) hnil

/-- A call that is done before the backup has nothing to apply. -/
theorem prepare_inl {file' : Option (Database D)} {result : MigrationResult}
    (h : sql.prepare target fault false file file' = .ok (.inl result)) :
    ∃ applied, sql.dryRun target file = .ok (result.fromVersion, applied) ∧ applied = [] := by
  rw [prepare] at h
  obtain ⟨_, h⟩ := Fallible.guard_ok h
  obtain ⟨_, h⟩ := Fallible.guard_ok h
  obtain ⟨⟨current, applied⟩, hdry, h⟩ := Fallible.bind_ok h
  dsimp only at h
  split at h
  · next hnone =>
    cases h
    exact ⟨applied, hdry, hnone.resolve_left Bool.false_ne_true⟩
  · rcases file with _ | db
    · cases h
    · obtain ⟨_, h⟩ := Fallible.guard_ok h
      cases h

/-- A call that goes on to the live database has something to apply. -/
theorem prepare_inr {file' backup : Option (Database D)}
    (h : sql.prepare target fault false file file' = .ok (.inr (current, backup))) :
    ∃ applied, sql.dryRun target file = .ok (current, applied) ∧ applied ≠ [] := by
  rw [prepare] at h
  obtain ⟨_, h⟩ := Fallible.guard_ok h
  obtain ⟨_, h⟩ := Fallible.guard_ok h
  obtain ⟨⟨current', applied⟩, hdry, h⟩ := Fallible.bind_ok h
  dsimp only at h
  split at h
  · cases h
  · next hnone =>
    rw [not_or] at hnone
    rcases file with _ | db
    · cases h
      exact ⟨applied, hdry, hnone.2⟩
    · obtain ⟨_, h⟩ := Fallible.guard_ok h
      cases h
      exact ⟨applied, hdry, hnone.2⟩

/-- What a live migration that succeeds has checked. -/
theorem migrateLive_ok (h : sql.migrateLive target fault current db = .ok (applied, db')) :
    sql.History target db ∧ sql.apply target fault db.userVersion db = .ok (applied, db') := by
  rw [migrateLive] at h
  obtain ⟨_, h⟩ := Fallible.guard_ok h
  obtain ⟨_, h⟩ := Fallible.guard_ok h
  obtain ⟨v, hv, h⟩ := Fallible.bind_ok h
  obtain ⟨hcurrent, happly⟩ := Fallible.guard_ok h
  obtain ⟨hversion, hhistory⟩ := validateHistory_ok_iff.1 hv
  rw [← hversion, not_not.1 hcurrent]
  exact ⟨hhistory, happly⟩

/-- The migrations that a dry run finds pending are pending. -/
theorem applied_ne_nil {backup : Option (Database D)}
    (h : sql.prepare target fault false file file = .ok (.inr (current, backup)))
    (hversion : 0 ≤ (file.getD sql.fresh).userVersion)
    (happly : sql.apply target fault (file.getD sql.fresh).userVersion (file.getD sql.fresh) =
      .ok (applied, db')) : applied ≠ [] := by
  rintro rfl
  have hle := length_le_of_apply_nil hversion happly
  obtain ⟨applied', hdry, hne⟩ := prepare_inr h
  obtain ⟨hcurrent, _, db'', happly'⟩ := dryRun_ok hdry
  rw [hcurrent, apply, sliceFrom_of_nonneg target hversion,
    if_pos (drop_eq_nil_iff.2 (by omega))] at happly'
  cases happly'
  exact hne rfl

/-- A call that succeeds leaves a migrated database if and only if it found one
    with no migration applied, with all of them, or with a table of those. -/
theorem migrated_iff (hkeeps : sql.KeepsMetadata target) {file : Option (Database D)}
    (hversion : 0 ≤ (file.getD sql.fresh).userVersion) {result : MigrationResult}
    (h : (sql.migrateTarget target fault quiet false file).result = .ok result) :
    sql.Migrated target (sql.migrateTarget target fault quiet false file).file ↔
      (file.getD sql.fresh).userVersion = 0 ∨
        (file.getD sql.fresh).userVersion = target.migrations.length ∨
          (file.getD sql.fresh).metadata.isSome := by
  unfold migrateTarget at h ⊢
  dsimp only [quiet, id] at h ⊢
  rcases hprepare : sql.prepare target fault false file file with e | result' | ⟨current, backup⟩
  · rw [hprepare] at h
    cases h
  · -- Nothing is pending: the file is left as it is.
    dsimp only
    obtain ⟨applied, hdry, hnone⟩ := prepare_inl hprepare
    rw [hnone] at hdry
    obtain ⟨hcurrent, hhistory, db', happly⟩ := dryRun_ok hdry
    have hlast : (file.getD sql.fresh).userVersion = target.migrations.length := by
      refine le_antisymm hhistory.le ?_
      rw [hcurrent] at happly
      exact length_le_of_apply_nil hversion happly
    refine ⟨fun _ => .inr (.inl hlast), fun _ => ⟨?_, hlast, migrateTarget_of_dryRun hdry⟩⟩
    rw [validateHistory_ok_iff, hlast]
    exact ⟨rfl, hhistory⟩
  · rw [hprepare] at h
    dsimp only at h ⊢
    rcases hlive : sql.migrateLive target fault current (file.getD sql.fresh) with
      e | ⟨applied, db'⟩
    · rw [hlive] at h
      cases h
    · rw [hlive] at h
      dsimp only at h ⊢
      split_ifs at h ⊢ with hvalid
      obtain ⟨hhistory, happly⟩ := migrateLive_ok hlive
      rw [not_or, Bool.not_eq_true, Bool.not_eq_true, Bool.not_eq_false'] at hvalid
      have hne : applied ≠ [] := applied_ne_nil hprepare hversion happly
      obtain ⟨hlt, hlast, _⟩ := apply_ok hkeeps hversion happly hne
      have hiff := history_apply_iff hkeeps hversion hhistory happly hne
      have hcondition : ((file.getD sql.fresh).userVersion = 0 ∨
          (file.getD sql.fresh).userVersion = target.migrations.length ∨
            (file.getD sql.fresh).metadata.isSome) ↔ sql.History target db' := by
        rw [hiff, or_iff_right (a := (file.getD sql.fresh).userVersion =
          target.migrations.length) hlt.ne]
      rw [hcondition]
      constructor
      · exact fun hmigrated => (validateHistory_ok_iff.1 hmigrated.1).2
      · intro hhistory'
        refine ⟨?_, hlast, migrateTarget_of_dryRun (dryRun_of_history hhistory' hlast ?_ hvalid.2)⟩
        · exact validateHistory_ok_iff.2 ⟨hlast.symm, hhistory'⟩
        · simp [hvalid.2]

end Sqlite

/-- A target with two migrations. -/
def twoMigrations : MigrationTarget where
  name := "messages"
  migrations := [⟨1, "create", ["CREATE TABLE messages(body TEXT)"], ""⟩,
    ⟨2, "index", ["CREATE INDEX bodies ON messages(body)"], ""⟩]
  versions := rfl

open Sqlite in
theorem migrated_iff_new : transcript.Migrated twoMigrations
    (transcript.migrateTarget twoMigrations (fun _ => false) quiet false none).file := by
  have hkeeps : transcript.KeepsMetadata twoMigrations := by
    rintro m _ statement _ db db' h
    cases h
    rfl
  have hok : (transcript.migrateTarget twoMigrations (fun _ => false) quiet false none).result =
      .ok ⟨"messages", 0, 2, [1, 2], false⟩ := rfl
  have hversion : 0 ≤ ((none : Option (Database (List String))).getD transcript.fresh).userVersion :=
    le_refl (0 : ℤ)
  exact (migrated_iff hkeeps hversion hok).2 (.inl rfl)

open Sqlite in
/-- The older runner has applied the first of two migrations. The second one is
    then applied, and recorded alone: the next call rejects the history. -/
theorem second_call_rejects_history :
    ∃ db result e,
      transcript.runDbMigrations ["CREATE TABLE messages(body TEXT)"] transcript.fresh = some db ∧
      (transcript.migrateTarget twoMigrations (fun _ => false) quiet false (some db)).result =
        .ok result ∧
      (transcript.migrateTarget twoMigrations (fun _ => false) quiet false
        (transcript.migrateTarget twoMigrations (fun _ => false) quiet false
          (some db)).file).result = .error e :=
  ⟨⟨1, none, ["CREATE TABLE messages(body TEXT)"]⟩, ⟨"messages", 1, 2, [2], false⟩,
    .metadataMismatch 2 [2], rfl, rfl, rfl⟩

end ReticulumPi.Migrations
