import Mathlib.Algebra.Order.Ring.Rat
import ReticulumPi.Lib.Ranking
import ReticulumPi.Lib.Transition

/-!
# Pruning backups and releases

`reticulumpi-admin` keeps the newest backups and releases, by the modification
times of their directories. An operation is cut where `_backup_state` returns:
`Event.backUp` is what comes before, `Event.finish` what comes after, if it
succeeds. The order in which a directory is listed and the times found there are
inputs of the step, any at all.

Versions, features and what the directories contain are left out, and so are the
operations that fail.

* `keeps_iff`: a step leaves what a later rollback needs exactly when the new
  backup is among the newest three and the release that is replaced among the
  newest two of the others.
-/

namespace ReticulumPi.Admin.Pruning

open Ranking List

/-- A directory as it is listed: the names and their `st_mtime`. -/
abbrev Listing := List (String × ℚ)

/-- The listing shows the given directories. -/
def Listing.Shows (listing : Listing) (dirs : List String) : Prop :=
  (listing.map Prod.fst).Perm dirs
deriving Decidable

/-- The oldest first. -/
def Older (e e' : String × ℚ) : Prop := e.2 ≤ e'.2
deriving Decidable

/-- The newest first. -/
def Newer (e e' : String × ℚ) : Prop := e'.2 ≤ e.2
deriving Decidable

instance : Std.Total Older := ⟨fun e e' => le_total e.2 e'.2⟩

instance : Std.Total Newer := ⟨fun e e' => le_total e'.2 e.2⟩

instance : IsTrans _ Older := ⟨fun _ _ _ h h' => le_trans (α := ℚ) h h'⟩

instance : IsTrans _ Newer := ⟨fun _ _ _ h h' => le_trans (α := ℚ) h' h⟩

/-! ## What is removed -/

/-- The backups that `_backup_state` may remove. -/
def removable (protected? : Option String) (listing : Listing) : Listing :=
  listing.filter fun e => some e.1 ≠ protected?

/-- `removable[:-3]` -/
def expiredBackups (protected? : Option String) (listing : Listing) : List String :=
  (((removable protected? listing).insertionSort Older).take
    ((removable protected? listing).length - 3)).map Prod.fst

/-- The releases that `_prune_releases` may remove. -/
def candidates (current : String) (listing : Listing) : Listing :=
  listing.filter fun e => e.1 ≠ current

/-- `candidates[max(0, retain - 1):]`, with `retain = 3` -/
def expiredReleases (current : String) (listing : Listing) : List String :=
  (((candidates current listing).insertionSort Newer).drop (3 - 1)).map Prod.fst

def remove (dirs expired : List String) : List String := dirs.filter (· ∉ expired)

/-! ## The operations -/

/-- `InstallManifest` -/
structure Manifest where
  release : String
  previousRelease : Option String
  legacyBridgeBackup : Option String
deriving DecidableEq

/-- What is run with `--apply`. -/
inductive Operation
  | install (release : String)
  | upgrade (release : String)
  | rollback (target : String)
  | rollbackLegacy
deriving DecidableEq

structure State where
  /-- The directories of `BACKUP_DIR` with the prefix of backups. -/
  backups : List String
  /-- The directories of `releases`. -/
  releases : List String
  manifest : Option Manifest
  /-- Where the pointer `current` leads. -/
  current : Option String
  /-- The operation under way, and the backup made for it. -/
  inProgress : Option (Operation × String)
deriving DecidableEq

variable (s : State)

/-- The backup that pruning leaves alone. -/
def State.protected? : Option String := s.manifest.bind (·.legacyBridgeBackup)

/-- What an operation has checked by the time that it makes its backup. -/
def State.CanStart : Operation → Prop
  | .install release =>
    s.manifest = none ∧ release ∉ s.releases ∧ s.current.all (· ∈ s.releases) = true
  | .upgrade release =>
    (s.manifest.all fun m => s.current = some m.release) = true ∧ release ∉ s.releases ∧
      s.current.all (· ∈ s.releases) = true
  | .rollback target =>
    s.manifest ≠ none ∧ (s.current.any fun c => c ∈ s.releases ∧ target ≠ c) = true ∧
      target ∈ s.releases
  | .rollbackLegacy =>
    s.protected?.any (· ∈ s.backups) = true ∧ s.current.any (· ∈ s.releases) = true

instance (op : Operation) : Decidable (s.CanStart op) := by
  unfold State.CanStart
  split <;> infer_instance

/-- The release that an operation has created before it makes its backup. -/
def Operation.created : Operation → List String
  | install release | upgrade release => [release]
  | rollback _ | rollbackLegacy => []

/-- An operation up to where `_backup_state` returns the backup `destination`:
    then the backups are `listing`, which is pruned. -/
def State.backUp (op : Operation) (destination : String) (listing : Listing) : State :=
  { s with
    releases := op.created ++ s.releases
    backups := remove (destination :: s.backups) (expiredBackups s.protected? listing)
    inProgress := some (op, destination) }

/-- `_retained_legacy_bridge_evidence` -/
def State.retainedBackup (op : Operation) (release backup : String) : Option String :=
  if op = .upgrade release ∧ s.manifest = none ∧ s.current = none then some backup
  else s.protected?

/-- An install or upgrade from its backup on: then the releases are `listing`, which is pruned. -/
def State.switchTo (op : Operation) (release backup : String) (listing : Listing) :
    State :=
  { s with
    manifest := some ⟨release, s.current, s.retainedBackup op release backup⟩
    current := some release
    releases := remove s.releases (expiredReleases release listing)
    inProgress := none }

/-- `_rollback` from its backup on. -/
def State.rollBack (target : String) : State :=
  { s with
    manifest := s.manifest.map ({ · with release := target, previousRelease := s.current })
    current := some target
    inProgress := none }

/-- `_rollback_legacy` from its backup on. -/
def State.rollBackLegacy : State :=
  { s with manifest := none, current := none, inProgress := none }

inductive Event
  | backUp (op : Operation) (destination : String) (listing : Listing)
  | finish (listing : Listing)

/-- What an operation does from its backup on: it writes into the backup first. -/
def State.finish (listing : Listing) : Option State :=
  match s.inProgress with
  | none => none
  | some (op, backup) =>
    if backup ∈ s.backups then
      match op with
      | .install release | .upgrade release =>
        if listing.Shows s.releases then some (s.switchTo op release backup listing) else none
      | .rollback target => some (s.rollBack target)
      | .rollbackLegacy => some s.rollBackLegacy
    else none

def State.next : Event → Option State
  | .backUp op destination listing =>
    if s.inProgress = none ∧ s.CanStart op ∧ destination ∉ s.backups ∧
        listing.Shows (destination :: s.backups) then
      some (s.backUp op destination listing)
    else none
  | .finish listing => s.finish listing

/-- Before the first install. -/
def IsInit : Prop :=
  s.backups.Nodup ∧ s.releases.Nodup ∧ s.manifest = none ∧ s.current = none ∧ s.inProgress = none

def system : Transition State Event := .ofNext IsInit State.next

/-- What a rollback may need is there: the backup of the operation under way and
    the recorded legacy backup, the current release and the previous one. -/
structure Kept : Prop where
  backup : ∀ op b, s.inProgress = some (op, b) → b ∈ s.backups
  legacy : ∀ b, s.protected? = some b → b ∈ s.backups
  current : ∀ r, s.current = some r → r ∈ s.releases
  previous : ∀ m r, s.manifest = some m → m.previousRelease = some r → r ∈ s.releases

/-! ## Which directories go -/

theorem mem_remove {dirs expired : List String} {dir : String} :
    dir ∈ remove dirs expired ↔ dir ∈ dirs ∧ dir ∉ expired := by
  rw [remove, mem_filter, decide_eq_true_eq]

theorem nodup_remove {dirs expired : List String} (h : dirs.Nodup) : (remove dirs expired).Nodup :=
  h.filter _

variable {listing : Listing}

theorem Listing.Shows.nodup {dirs : List String} (h : listing.Shows dirs)
    (hdirs : dirs.Nodup) : (listing.map Prod.fst).Nodup := h.nodup_iff.2 hdirs

variable {e : String × ℚ}

/-- An entry of a listing is known by its name. -/
theorem fst_mem_map_iff {l m : Listing} (hl : (l.map Prod.fst).Nodup)
    (hm : ∀ e ∈ m, e ∈ l) (he : e ∈ l) : e.1 ∈ m.map Prod.fst ↔ e ∈ m := by
  refine ⟨fun h => ?_, fun h => List.mem_map_of_mem h⟩
  obtain ⟨e', he', heq⟩ := List.mem_map.1 h
  rwa [← inj_on_of_nodup_map hl (hm e' he') he heq]

theorem mem_take_iff_not_mem_drop {m : Listing} {n : ℕ} (hm : m.Nodup)
    (he : e ∈ m) : e ∈ m.take n ↔ e ∉ m.drop n := by
  rw [← take_append_drop n m] at hm he
  rw [nodup_append] at hm
  exact ⟨fun h h' => hm.2.2 e h e h' rfl, (mem_append.1 he).resolve_right⟩

/-- A backup goes when three others are newer. -/
theorem mem_expiredBackups {protected? : Option String}
    (hl : (listing.map Prod.fst).Nodup) (he : e ∈ removable protected? listing) :
    e.1 ∈ expiredBackups protected? listing ↔
      ¬(removable protected? listing).countP
        (Before Older (removable protected? listing) e ·) < 3 := by
  have hl' := hl.sublist (filter_sublist (p := fun e => some e.1 ≠ protected?).map Prod.fst)
  rw [expiredBackups]
  change ((removable protected? listing).map Prod.fst).Nodup at hl'
  generalize removable protected? listing = l at he hl' ⊢
  have hsorted := (perm_insertionSort Older l).nodup_iff.2 hl'.of_map
  have hmem : e ∈ l.insertionSort Older := (mem_insertionSort Older).2 he
  rw [fst_mem_map_iff hl' (fun _ h => (mem_insertionSort Older).1 (mem_of_mem_take h)) he,
    mem_take_iff_not_mem_drop hsorted hmem, mem_drop_insertionSort hl'.of_map he]

/-- A release goes when two others are newer. -/
theorem mem_expiredReleases {current : String}
    (hl : (listing.map Prod.fst).Nodup) (he : e ∈ candidates current listing) :
    e.1 ∈ expiredReleases current listing ↔
      ¬(candidates current listing).countP
        (Before Newer (candidates current listing) · e) < 2 := by
  have hl' := hl.sublist (filter_sublist (p := fun e => e.1 ≠ current).map Prod.fst)
  rw [expiredReleases]
  change ((candidates current listing).map Prod.fst).Nodup at hl'
  generalize candidates current listing = l at he hl' ⊢
  have hsorted := (perm_insertionSort Newer l).nodup_iff.2 hl'.of_map
  have hmem : e ∈ l.insertionSort Newer := (mem_insertionSort Newer).2 he
  rw [fst_mem_map_iff hl' (fun _ h => (mem_insertionSort Newer).1 (mem_of_mem_drop h)) he,
    ← mem_take_insertionSort hl'.of_map he, mem_take_iff_not_mem_drop hsorted hmem, not_not]

theorem protected_not_mem_expiredBackups {b : String} : b ∉ expiredBackups (some b) listing := by
  intro h
  obtain ⟨e, he, rfl⟩ := List.mem_map.1 h
  have hmem := (mem_insertionSort Older).1 (mem_of_mem_take he)
  exact of_decide_eq_true (mem_filter.1 hmem).2 rfl

theorem current_not_mem_expiredReleases {current : String} :
    current ∉ expiredReleases current listing := by
  intro h
  obtain ⟨e, he, heq⟩ := List.mem_map.1 h
  have hmem := (mem_insertionSort Newer).1 (mem_of_mem_drop he)
  exact of_decide_eq_true (mem_filter.1 hmem).2 heq

/-! ## What stays -/

/-- A step that prunes nothing that is needed: fewer than three of the other
    backups are newer than the one just made, and fewer than two of the other
    releases are newer than the one that is replaced. Of two that are as old as
    each other, the one listed first counts as the older backup, and as the newer
    release. -/
def State.Spares : Event → Prop
  | .backUp _ destination listing =>
    ∀ e ∈ listing, e.1 = destination →
      (removable s.protected? listing).countP
        (Before Older (removable s.protected? listing) e ·) < 3
  | .finish listing =>
    ∀ op ∈ s.inProgress.map Prod.fst, ∀ release ∈ op.created, ∀ e ∈ listing,
      some e.1 = s.current →
        (candidates release listing).countP (Before Newer (candidates release listing) · e) < 2

/-- What every run keeps, whatever it prunes. -/
structure Sound : Prop where
  backups : s.backups.Nodup
  releases : s.releases.Nodup
  legacy : ∀ b, s.protected? = some b → b ∈ s.backups
  current : ∀ r, s.current = some r → r ∈ s.releases
  created : ∀ op b, s.inProgress = some (op, b) →
    ∀ r ∈ op.created, r ∈ s.releases ∧ s.current ≠ some r
  target : ∀ t b, s.inProgress = some (.rollback t, b) → t ∈ s.releases

variable {s : State}

theorem sound_init (h : IsInit s) : Sound s := by
  obtain ⟨hb, hr, hm, hc, hp⟩ := h
  refine ⟨hb, hr, fun b h => ?_, fun r h => ?_, fun op b h => ?_, fun t b h => ?_⟩
  · rw [State.protected?, hm] at h
    cases h
  · rw [hc] at h
    cases h
  all_goals
    rw [hp] at h
    cases h

/-- What a step is. -/
theorem next_cases {s' : State} {e : Event} (hs : s.next e = some s') :
    (∃ op destination listing, e = .backUp op destination listing ∧ s.inProgress = none ∧
        s.CanStart op ∧ destination ∉ s.backups ∧ listing.Shows (destination :: s.backups) ∧
          s' = s.backUp op destination listing) ∨
      ∃ listing op backup, e = .finish listing ∧ s.inProgress = some (op, backup) ∧
        backup ∈ s.backups ∧
          ((∃ release, op.created = [release] ∧ listing.Shows s.releases ∧
              s' = s.switchTo op release backup listing) ∨
            (∃ target, op = .rollback target ∧ s' = s.rollBack target) ∨
              op = .rollbackLegacy ∧ s' = s.rollBackLegacy) := by
  cases e with
  | backUp op destination listing =>
    rw [State.next] at hs
    split_ifs at hs with h
    exact .inl ⟨op, destination, listing, rfl, h.1, h.2.1, h.2.2.1, h.2.2.2,
      (Option.some.inj hs).symm⟩
  | finish listing =>
    refine .inr ⟨listing, ?_⟩
    rw [State.next, State.finish] at hs
    rcases hp : s.inProgress with _ | ⟨op, backup⟩
    · rw [hp] at hs
      cases hs
    · rw [hp] at hs
      dsimp only at hs
      by_cases hb : backup ∈ s.backups
      swap
      · rw [if_neg hb] at hs
        cases hs
      rw [if_pos hb] at hs
      refine ⟨op, backup, rfl, rfl, hb, ?_⟩
      cases op with
      | install release | upgrade release =>
        by_cases hl : listing.Shows s.releases
        · exact .inl ⟨release, rfl, hl, (Option.some.inj ((if_pos hl).symm.trans hs)).symm⟩
        · cases (if_neg hl).symm.trans hs
      | rollback target => exact .inr (.inl ⟨target, rfl, (Option.some.inj hs).symm⟩)
      | rollbackLegacy => exact .inr (.inr ⟨rfl, (Option.some.inj hs).symm⟩)

variable {op : Operation}

theorem State.CanStart.created (h : s.CanStart op) {r : String}
    (hr : r ∈ op.created) : r ∉ s.releases := by
  cases op with
  | install release | upgrade release =>
    rw [Operation.created, mem_singleton] at hr
    exact hr ▸ h.2.1
  | rollback target => cases hr
  | rollbackLegacy => cases hr

theorem nodup_created (op : Operation) : op.created.Nodup := by
  cases op with
  | install release | upgrade release => exact nodup_singleton _
  | rollback target | rollbackLegacy => exact nodup_nil

theorem Sound.backUp {destination : String}
    (h : Sound s) (hstart : s.CanStart op) (hnew : destination ∉ s.backups) :
    Sound (s.backUp op destination listing) := by
  refine ⟨?_, ?_, fun b hb => ?_, fun r hr => ?_, fun op' b hp r hr => ?_, fun t b hp => ?_⟩
  · exact nodup_remove (nodup_cons.2 ⟨hnew, h.backups⟩)
  · refine nodup_append.2 ⟨nodup_created op, h.releases, fun a ha b hb hab => ?_⟩
    exact hstart.created ha (hab ▸ hb)
  · refine mem_remove.2 ⟨mem_cons_of_mem _ (h.legacy b hb), ?_⟩
    change s.protected? = some b at hb
    rw [hb]
    exact protected_not_mem_expiredBackups
  · exact mem_append_right _ (h.current r hr)
  · cases hp
    refine ⟨mem_append_left _ hr, fun hcurrent => ?_⟩
    exact hstart.created hr (h.current r hcurrent)
  · cases hp
    exact mem_append_right _ hstart.2.2

theorem Sound.switchTo {release backup : String}
    (h : Sound s) (hp : s.inProgress = some (op, backup)) (hb : backup ∈ s.backups)
    (hr : op.created = [release]) : Sound (s.switchTo op release backup listing) := by
  refine ⟨h.backups, nodup_remove h.releases, fun b hlegacy => ?_, fun r hcurrent => ?_,
    fun _ _ hnone => (Option.some_ne_none _ hnone.symm).elim,
    fun _ _ hnone => (Option.some_ne_none _ hnone.symm).elim⟩
  · change s.retainedBackup op release backup = some b at hlegacy
    rw [State.retainedBackup] at hlegacy
    split_ifs at hlegacy
    · exact Option.some.inj hlegacy ▸ hb
    · exact h.legacy b hlegacy
  · cases hcurrent
    refine mem_remove.2 ⟨(h.created op backup hp release ?_).1, current_not_mem_expiredReleases⟩
    rw [hr]
    exact mem_singleton_self release

theorem Sound.next {s' : State} {e : Event} (h : Sound s) (hs : s.next e = some s') : Sound s' := by
  obtain ⟨op, destination, listing, rfl, -, hstart, hnew, -, rfl⟩ |
    ⟨listing, op, backup, rfl, hp, hb, hop⟩ := next_cases hs
  · exact h.backUp hstart hnew
  · obtain ⟨release, hr, -, rfl⟩ | ⟨target, rfl, rfl⟩ | ⟨rfl, rfl⟩ := hop
    · exact h.switchTo hp hb hr
    · refine ⟨h.backups, h.releases, fun b hlegacy => ?_, fun r hcurrent => ?_,
        fun _ _ hnone => (Option.some_ne_none _ hnone.symm).elim,
        fun _ _ hnone => (Option.some_ne_none _ hnone.symm).elim⟩
      · refine h.legacy b ?_
        rcases hm : s.manifest with _ | m
        · rw [State.protected?, State.rollBack, hm] at hlegacy
          cases hlegacy
        · rw [State.protected?, State.rollBack, hm] at hlegacy
          rw [State.protected?, hm]
          exact hlegacy
      · cases hcurrent
        exact h.target target backup hp
    · exact ⟨h.backups, h.releases, fun _ hnone => (Option.some_ne_none _ hnone.symm).elim,
        fun _ hnone => (Option.some_ne_none _ hnone.symm).elim,
        fun _ _ hnone => (Option.some_ne_none _ hnone.symm).elim,
        fun _ _ hnone => (Option.some_ne_none _ hnone.symm).elim⟩

/-- The backup just made stays exactly when the step spares it. -/
theorem kept_backUp_iff {destination : String}
    (h : Sound s) (hk : Kept s) (hstart : s.CanStart op) (hnew : destination ∉ s.backups)
    (hl : listing.Shows (destination :: s.backups)) :
    Kept (s.backUp op destination listing) ↔ s.Spares (.backUp op destination listing) := by
  have hnodup := hl.nodup (nodup_cons.2 ⟨hnew, h.backups⟩)
  have hfree : some destination ≠ s.protected? := fun heq => hnew (h.legacy destination heq.symm)
  have hentry : ∀ e ∈ listing, e.1 = destination → e ∈ removable s.protected? listing := by
    rintro e he rfl
    exact mem_filter.2 ⟨he, decide_eq_true hfree⟩
  have hsound' : Sound (s.backUp op destination listing) := h.backUp hstart hnew
  constructor
  · rintro hkept e he rfl
    have hmem := (mem_remove.1 (hkept.backup op e.1 rfl)).2
    exact not_not.1 fun hcount => hmem ((mem_expiredBackups hnodup (hentry e he rfl)).2 hcount)
  · intro hspares
    refine ⟨fun op' b hp => ?_, hsound'.legacy, hsound'.current, fun m r hm hr => ?_⟩
    · cases hp
      have hmem : destination ∈ listing.map Prod.fst := hl.mem_iff.2 mem_cons_self
      obtain ⟨e, he, rfl⟩ := List.mem_map.1 hmem
      refine mem_remove.2 ⟨mem_cons_self, fun hgone => ?_⟩
      exact (mem_expiredBackups hnodup (hentry e he rfl)).1 hgone (hspares e he rfl)
    · exact mem_append_right _ (hk.previous m r hm hr)

/-- The release that is replaced stays exactly when the step spares it. -/
theorem kept_switchTo_iff {release backup : String}
    (h : Sound s) (hp : s.inProgress = some (op, backup))
    (hb : backup ∈ s.backups) (hr : op.created = [release]) (hl : listing.Shows s.releases) :
    Kept (s.switchTo op release backup listing) ↔ s.Spares (.finish listing) := by
  have hnodup := hl.nodup h.releases
  have hne : s.current ≠ some release :=
    (h.created op backup hp release (hr ▸ mem_singleton_self release)).2
  have hentry : ∀ e ∈ listing, some e.1 = s.current → e ∈ candidates release listing := by
    intro e he hcurrent
    exact mem_filter.2 ⟨he, decide_eq_true fun heq => hne (heq ▸ hcurrent.symm)⟩
  have hsound' : Sound (s.switchTo op release backup listing) := h.switchTo hp hb hr
  constructor
  · intro hkept op' hop' r' hr' e he hcurrent
    rw [hp] at hop'
    obtain rfl := Option.mem_some_iff.1 hop'
    rw [hr, mem_singleton] at hr'
    subst hr'
    have hmem := (mem_remove.1 (hkept.previous _ e.1 rfl hcurrent.symm)).2
    exact not_not.1 fun hcount =>
      hmem ((mem_expiredReleases hnodup (hentry e he hcurrent)).2 hcount)
  · intro hspares
    refine ⟨fun _ _ hnone => (Option.some_ne_none _ hnone.symm).elim, hsound'.legacy,
      hsound'.current, fun m r hm hcurrent => ?_⟩
    cases hm
    change s.current = some r at hcurrent
    have hmem := h.current r hcurrent
    obtain ⟨e, he, rfl⟩ := List.mem_map.1 (hl.mem_iff.2 hmem)
    refine mem_remove.2 ⟨hmem, fun hgone => ?_⟩
    refine (mem_expiredReleases hnodup (hentry e he hcurrent.symm)).1 hgone ?_
    exact hspares op (by rw [hp]; rfl) release (hr ▸ mem_singleton_self release) e he
      hcurrent.symm

theorem kept_next_iff {s' : State} {e : Event} (h : Sound s) (hk : Kept s)
    (hs : s.next e = some s') : Kept s' ↔ s.Spares e := by
  have hsound' := h.next hs
  obtain ⟨op, destination, listing, rfl, -, hstart, hnew, hl, rfl⟩ |
    ⟨listing, op, backup, rfl, hp, hb, hop⟩ := next_cases hs
  · exact kept_backUp_iff h hk hstart hnew hl
  · obtain ⟨release, hr, hl, rfl⟩ | ⟨target, rfl, rfl⟩ | ⟨rfl, rfl⟩ := hop
    · exact kept_switchTo_iff h hp hb hr hl
    · -- A rollback removes no release.
      refine iff_of_true ⟨fun _ _ hnone => (Option.some_ne_none _ hnone.symm).elim,
        hsound'.legacy, hsound'.current, fun m r hm hr => ?_⟩ fun op hop r hr => ?_
      · obtain ⟨m', -, rfl⟩ := Option.map_eq_some_iff.1 hm
        exact h.current r hr
      · rw [hp] at hop
        obtain rfl := Option.mem_some_iff.1 hop
        cases hr
    · refine iff_of_true ⟨fun _ _ hnone => (Option.some_ne_none _ hnone.symm).elim,
        hsound'.legacy, hsound'.current,
        fun _ _ hnone => (Option.some_ne_none _ hnone.symm).elim⟩ fun op hop r hr => ?_
      rw [hp] at hop
      obtain rfl := Option.mem_some_iff.1 hop
      cases hr

theorem kept_init (h : IsInit s) : Kept s := by
  have hsound := sound_init h
  obtain ⟨-, -, hm, -, hp⟩ := h
  refine ⟨fun op b h => ?_, hsound.legacy, hsound.current, fun m r h => ?_⟩
  · rw [hp] at h
    cases h
  · rw [hm] at h
    cases h

/-- In every run that has spared what is needed so far, a step leaves what a
    rollback needs exactly when it spares it too. -/
theorem keeps_iff {s s' : State} {e : Event} (h : system.Reach State.Spares s)
    (hs : s.next e = some s') : Kept s ∧ (Kept s' ↔ s.Spares e) := by
  have hinv : Sound s ∧ Kept s :=
    Transition.Reach.induction (I := fun s => Sound s ∧ Kept s)
      (fun s hs => ⟨sound_init hs, kept_init hs⟩)
      (fun s e s' hs he hstep =>
        ⟨hs.1.next hstep, (kept_next_iff hs.1 hs.2 hstep).2 he⟩) h
  exact ⟨hinv.2, kept_next_iff hinv.1 hinv.2 hs⟩

/-! ## Two histories -/

def fresh : State := ⟨[], [], none, none, none⟩

theorem isInit_fresh : IsInit fresh := ⟨nodup_nil, nodup_nil, rfl, rfl, rfl⟩

/-- An install and two upgrades, one a day. -/
def threeReleases : List Event :=
  [.backUp (.install "0.4.0") "release-a" [("release-a", 1)], .finish [("0.4.0", 1)],
    .backUp (.upgrade "0.4.1") "release-b" [("release-a", 1), ("release-b", 2)],
    .finish [("0.4.0", 1), ("0.4.1", 2)],
    .backUp (.upgrade "0.4.2") "release-c" [("release-a", 1), ("release-b", 2), ("release-c", 3)],
    .finish [("0.4.0", 1), ("0.4.1", 2), ("0.4.2", 3)]]

/-- Back to the first release, and an upgrade from there. -/
def thereAndUp : List Event :=
  [.backUp (.rollback "0.4.0") "release-d"
      [("release-a", 1), ("release-b", 2), ("release-c", 3), ("release-d", 4)],
    .finish [],
    .backUp (.upgrade "0.4.3") "release-e"
      [("release-b", 2), ("release-c", 3), ("release-d", 4), ("release-e", 5)]]

def lastUpgrade : Event := .finish [("0.4.0", 1), ("0.4.1", 2), ("0.4.2", 3), ("0.4.3", 5)]

/-- An upgrade when the clock has been set back. -/
def clockBack : Event :=
  .backUp (.upgrade "0.4.3") "release-d"
    [("release-a", 1), ("release-b", 2), ("release-c", 3), ("release-d", 0)]

instance (s : State) (e : Event) : Decidable (s.Spares e) := by
  cases e with
  | backUp op destination listing => exact List.decidableBAll _ _
  | finish listing =>
    unfold State.Spares
    infer_instance

theorem keeps_iff_upgraded : ∃ s s' : State, s.current = some "0.4.0" ∧
    s'.current = some "0.4.1" ∧
      (Kept s ∧ (Kept s' ↔ s.Spares (.finish [("0.4.0", 1), ("0.4.1", 2)]))) := by
  obtain ⟨s, hs, hcurrent, s', hs', hcurrent'⟩ :
      ∃ s ∈ (threeReleases.take 3).foldlM (fun (s : State) e =>
        if s.Spares e then s.next e else none) fresh,
        s.current = some "0.4.0" ∧ ∃ s' ∈ s.next (.finish [("0.4.0", 1), ("0.4.1", 2)]),
          s'.current = some "0.4.1" := by
    decide +kernel
  exact ⟨s, s', hcurrent, hcurrent',
    keeps_iff (Transition.Reach.foldlM (.init isInit_fresh) hs) hs'⟩

/-- The release that the last upgrade replaced is the oldest one, and is pruned;
    the backup made with the clock set back looks the oldest, and is pruned. -/
theorem prunes_what_rollback_needs :
    (∃ s s' : State, system.Reachable s ∧ s.next lastUpgrade = some s' ∧
        ∃ m r, s'.manifest = some m ∧ m.previousRelease = some r ∧ r ∉ s'.releases) ∧
      ∃ s s' : State, system.Reachable s ∧ s.next clockBack = some s' ∧
        ∃ op b, s'.inProgress = some (op, b) ∧ b ∉ s'.backups := by
  constructor
  · obtain ⟨s, hs, s', hs', hm, hgone⟩ :
        ∃ s ∈ (threeReleases ++ thereAndUp).foldlM State.next fresh,
        ∃ s' ∈ s.next lastUpgrade,
          s'.manifest = some ⟨"0.4.3", some "0.4.0", none⟩ ∧ "0.4.0" ∉ s'.releases := by
      decide +kernel
    exact ⟨s, s', Transition.Reachable.foldlM (.init isInit_fresh) hs, hs', _, _, hm, rfl, hgone⟩
  · obtain ⟨s, hs, s', hs', hp, hgone⟩ : ∃ s ∈ threeReleases.foldlM State.next fresh,
        ∃ s' ∈ s.next clockBack,
          s'.inProgress = some (.upgrade "0.4.3", "release-d") ∧ "release-d" ∉ s'.backups := by
      decide +kernel
    exact ⟨s, s', Transition.Reachable.foldlM (.init isInit_fresh) hs, hs', _, _, hp, hgone⟩

end ReticulumPi.Admin.Pruning
