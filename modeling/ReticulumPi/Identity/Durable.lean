import ReticulumPi.Identity.Steps

/-!
# Restorations that fail

Whatever step of `restore_identity` raises, the original identity is still at its path or
in the safety copy, but for the steps that come after the safety copy has been removed at
the end of a restoration that has succeeded (`restore_all_or_nothing_iff`).
-/

namespace ReticulumPi.Identity

open Prog

variable {Id : Type}

/-! ## What is kept and what is lost -/

/-- The failure is at a step that comes after the safety copy has been removed, and is not
    suppressed there. -/
def Failure.Late (f : Failure) : Prop :=
  f.place = .drop ∧ f.raised ≠ .fileNotFound ∧
      (f.op = .fsyncDirectory ∨ f.op = .unlink ∧ f.after = true) ∨
    f.place = .lock ∧ (f.op = .close ∨ f.op = .unlock ∧ f.raised.isOSError = false)

theorem Failure.Late.place {f : Failure} (h : f.Late) : f.place = .drop ∨ f.place = .lock :=
  h.imp (·.1) (·.1)

namespace Call

variable (call : Call Id) (files : String → Option Node)

/-- The files as the call finds them. -/
def start : Machine where
  files
    | .named path => files path
    | .temporary _ => none

/-- The bytes of the original are at its path or in the safety copy; if there was no
    original, those of the backup are at its path or at that of the identity. -/
def Kept (s : Machine) : Prop :=
  match files call.identityPath with
  | some (.file bytes _) => (∃ links, s.files call.identity = some (.file bytes links)) ∨
      ∃ links, s.files call.safety = some (.file bytes links)
  | none => s.files call.backup = files call.backupPath ∨
      s.files call.identity = files call.backupPath
  | _ => True

/-- A call that returns leaves the bytes of the backup at the path of the identity, and one
    that raises loses nothing. -/
def AllOrNothing : Prop :=
  wp call.restoreIdentity
    (fun _ s => ∃ bytes links, files call.backupPath = some (.file bytes links) ∧
      s.files call.identity = some (.file bytes links))
    (fun _ s => call.Kept files s) (fun _ => False) (start files)

/-- The backup can be restored. -/
def Restorable : Prop :=
  call.accepted = true ∧ call.lockable = true ∧ ∃ bytes,
    files call.backupPath = some (.file bytes 1) ∧ bytes.length ≤ maxIdentityBytes ∧
      call.Parses bytes

/-- The exception of the run comes when the original, which differs from the backup, has
    no safety copy any more; or it hides the original from the program, so that there
    never is one, and what is at the path of the safety copy cannot be unlinked. -/
def Loses : Prop :=
  call.Restorable files ∧ ∃ bytes links, files call.identityPath = some (.file bytes links) ∧
    (∀ n, files call.backupPath ≠ some (.file bytes n)) ∧ ∃ f ∈ call.failure,
      f.Late ∧ links = 1 ∧ bytes.length ≤ maxIdentityBytes ∧
          files call.safetyPath ≠ some .directory ∨
        f.Blinds .hadOriginal .lexists ∧ files call.safetyPath = some .directory

variable {call files} {s s' : Machine}

theorem safety_ne_identity : call.safety ≠ call.identity := by
  intro h
  have hlen := congrArg String.length (Path.named.inj h)
  have hinfix : ".pre-restore-".length = 13 := rfl
  simp only [safetyPath, String.length_append] at hlen
  omega

theorem Loses.failure (h : call.Loses files) :
    ∃ f ∈ call.failure, f.place = .drop ∨ f.place = .lock ∨ f.place = .hadOriginal := by
  obtain ⟨-, _, _, -, -, f, hf, ⟨h | h, -⟩ | ⟨h, -⟩⟩ := h
  · exact ⟨f, hf, .inl h.1⟩
  · exact ⟨f, hf, .inr (.inl h.1)⟩
  · exact ⟨f, hf, .inr (.inr h.1)⟩

/-- An exception anywhere else loses nothing. -/
theorem not_loses_of_fails {place : Place} (h : call.Fails place) (hdrop : place ≠ .drop)
    (hlock : place ≠ .lock) (hhad : place ≠ .hadOriginal) : ¬ call.Loses files := by
  intro hloses
  obtain ⟨f, hf, hplace⟩ := hloses.failure
  obtain ⟨g, hg, rfl⟩ := h
  cases Option.mem_unique hf hg
  rcases hplace with h | h | h
  · exact hdrop h
  · exact hlock h
  · exact hhad h

theorem not_loses_of_not_restorable (h : ¬ call.Restorable files) : ¬ call.Loses files :=
  fun hloses => h hloses.1

/-- What a call that raises is to leave. -/
def Verdict (call : Call Id) (files : String → Option Node) (s : Machine) : Prop :=
  call.Kept files s ↔ ¬ call.Loses files

theorem Kept.verdict (h : call.Kept files s) (hloses : ¬ call.Loses files) :
    call.Verdict files s := iff_of_true h hloses

/-- What is no file cannot be lost. -/
theorem not_loses_of_ne (h : ∀ bytes links, files call.identityPath ≠ some (.file bytes links)) :
    ¬ call.Loses files := by
  rintro ⟨-, bytes, links, hfile, -⟩
  exact h bytes links hfile

/-- As long as the files that have names are as the call has found them, nothing is lost. -/
theorem kept_of_named (h : ∀ path, s.files (.named path) = files path) : call.Kept files s := by
  rw [Kept]
  split
  · next bytes links horig => exact .inl ⟨links, (h _).trans horig⟩
  · exact .inl (h _)
  · trivial

theorem named_all (h : Frame ∅ s s') (hs : ∀ path, s.files (.named path) = files path)
    (path : String) : s'.files (.named path) = files path :=
  (h.named (Set.notMem_empty _)).trans (hs path)

/-- `stageCandidate` leaves the backup's bytes in a temporary file, and an identity that
    they are parsed to. -/
theorem stageCandidate_ends (hs : ∀ path, s.files (.named path) = files path)
    {Q : Bytes × Path × Id → Machine → Prop}
    (hQ : ∀ bytes id s', Frame ∅ s s' → s.temps < s'.temps →
      s'.files (.temporary s.temps) = some (.file bytes 1) → call.accepted = true →
      files call.backupPath = some (.file bytes 1) → bytes.length ≤ maxIdentityBytes →
      call.fromFile bytes = .ok (some id) → Q (bytes, .temporary s.temps, id) s') :
    Ends call.stageCandidate Q (call.Verdict files) s := by
  have hkept : ∀ s', Frame ∅ s s' → ¬ call.Loses files → call.Verdict files s' := fun s' h hl =>
    Kept.verdict (kept_of_named (named_all h hs)) hl
  refine .bind (readIdentityBytes_ends (fun bytes hbackup hlen => ?_) fun h => ?_)
  · have hbackup : files call.backupPath = some (.file bytes 1) := (hs _).symm.trans hbackup
    refine .bind (stageIdentityBytes_ends (fun s' h htemps hfile hacc => ?_) fun s' h hwhy => ?_)
    · have hun : ¬ call.Loses files → ∀ e, Ends (do
          call.unlinkIfPresent .staged (.temporary s.temps)
          throw e) Q (call.Verdict files) s' := fun hl e => by
        have hrest : ∀ s'', Frame {.temporary s.temps} s' s'' → call.Verdict files s'' :=
          fun s'' h' => hkept s'' (h.unstage h') hl
        exact .bind (unlinkIfPresent_ends hrest fun s'' h' _ => hrest s'' h')
      have hwhy : call.Fails .staged ∨ ¬ call.Parses bytes → ¬ call.Loses files := by
        rintro (h | h)
        · exact not_loses_of_fails h (by decide) (by decide) (by decide)
        · refine not_loses_of_not_restorable fun ⟨_, _, bytes', hb, _, hparse⟩ => ?_
          rw [hbackup] at hb
          cases hb
          exact h hparse
      refine .tryCatch (Q := Q) (E := fun s'' => s'' = s' ∧ ¬ call.Loses files)
        (.bind (.onException (identityFromFile_ends hfile (fun id hid => ?_)
          (fun h => ⟨rfl, hwhy h⟩) fun h => ⟨rfl, hwhy h⟩))) (fun _ _ h => h) ?_
      · exact hQ bytes id s' h htemps hfile hacc hbackup hlen hid
      · rintro e s'' ⟨rfl, hl⟩
        exact hun hl e
    · refine hkept s' h ?_
      rcases hwhy with hwhy | hwhy
      · exact not_loses_of_fails hwhy (by decide) (by decide) (by decide)
      · exact not_loses_of_not_restorable fun hr => by simp [hr.1] at hwhy
  · refine hkept s (.refl _ s) ?_
    rcases h with h | h
    · exact not_loses_of_fails h (by decide) (by decide) (by decide)
    · refine not_loses_of_not_restorable fun ⟨_, _, bytes, hb, hlen, _⟩ => h ?_
      exact ⟨bytes, (hs _).trans hb, hlen⟩

/-! ## The safety copy -/

/-- The original is in its place. -/
theorem kept_of_identity (h : s.files call.identity = files call.identityPath)
    (horig : files call.identityPath ≠ none) : call.Kept files s := by
  rw [Kept]
  split
  · next bytes links hfile => exact .inl ⟨links, h.trans hfile⟩
  · next hnone => exact absurd hnone horig
  · trivial

theorem copyOriginal_ends (hs : ∀ path, s.files (.named path) = files path)
    (hshown : ∀ f ∈ call.failure, ¬ f.Blinds .hadOriginal .lexists)
    (horig : files call.identityPath ≠ none) {path : ℕ} {Q : Unit → Machine → Prop}
    (hQ : ∀ bytes s', Frame {call.safety} s s' →
      s'.files call.safety = some (.file bytes 1) →
      files call.identityPath = some (.file bytes 1) → bytes.length ≤ maxIdentityBytes →
      files call.safetyPath ≠ some .directory → Q () s') :
    Ends (call.copyOriginal (.temporary path)) Q (call.Verdict files) s := by
  have hne : call.identity ∉ ({call.safety} : Set Path) := fun h =>
    safety_ne_identity (Set.mem_singleton_iff.1 h).symm
  have hkept : ∀ s', s'.files call.identity = s.files call.identity → ¬ call.Loses files →
      call.Verdict files s' := fun s' h hl =>
    (kept_of_identity (h.trans (hs _)) horig).verdict hl
  have hloses : call.Loses files → call.accepted = true ∧ Readable (files call.identityPath) ∧
      files call.safetyPath ≠ some .directory := by
    rintro ⟨hr, bytes, links, hfile, -, f, hf, ⟨-, rfl, hlen, hdir⟩ | ⟨hb, -⟩⟩
    · exact ⟨hr.1, ⟨bytes, hfile, hlen⟩, hdir⟩
    · exact absurd hb (hshown f hf)
  refine .tryCatch (Q := Q) (E := fun s' => s'.files call.identity = s.files call.identity ∧
    ¬ call.Loses files) (.bind (readIdentityBytes_ends (fun bytes hbytes hlen => ?_)
      fun hwhy => ⟨rfl, ?_⟩)) (fun _ _ h => h) ?_
  · refine atomicIdentityBytes_ends (fun s' h hfile _ hdir => ?_) fun s' h _ hwhy => ⟨?_, ?_⟩
    · exact hQ bytes s' h hfile ((hs _).symm.trans hbytes) hlen fun h => hdir ((hs _).trans h)
    · exact h.named hne
    · rcases hwhy with hwhy | hwhy | hwhy
      · exact not_loses_of_fails hwhy (by decide) (by decide) (by decide)
      · exact fun hl => by simp [(hloses hl).1] at hwhy
      · exact fun hl => (hloses hl).2.2 ((hs _).symm.trans hwhy)
  · rcases hwhy with hwhy | hwhy
    · exact not_loses_of_fails hwhy (by decide) (by decide) (by decide)
    · exact fun hl => hwhy (by rw [show s.files call.identity = _ from hs _]; exact (hloses hl).2.1)
  · rintro e s' ⟨h, hl⟩
    have hrest : ∀ s'', Frame {.temporary path} s' s'' → call.Verdict files s'' := fun s'' h' =>
      hkept s'' ((h'.named (by simp)).trans h) hl
    exact .bind (unlinkIfPresent_ends hrest fun s'' h' _ => hrest s'' h')

/-! ## The restoration -/

/-- What holds when the candidate, staged in the temporary file `t`, is to take the place
    of the original, which the program has found to exist or not. -/
structure Ready (call : Call Id) (files : String → Option Node) (had : Bool) (bytes : Bytes)
    (candidate : Id) (t : ℕ) (s : Machine) : Prop where
  restorable : call.Restorable files
  backup : files call.backupPath = some (.file bytes 1)
  length : bytes.length ≤ maxIdentityBytes
  parsed : call.fromFile bytes = .ok (some candidate)
  identity : s.files call.identity = files call.identityPath
  staged : s.files (.temporary t) = some (.file bytes 1)
  stagedPath : s.stagedPath = some (.temporary t)
  temps : t < s.temps
  restoreSucceeded : s.restoreSucceeded = false
  /-- The original has its safety copy. -/
  copied : had = true → (∀ f ∈ call.failure, ¬ f.Blinds .hadOriginal .lexists) ∧
    ∃ original, files call.identityPath = some (.file original 1) ∧
      original.length ≤ maxIdentityBytes ∧ s.files call.safety = some (.file original 1) ∧
      files call.safetyPath ≠ some .directory
  /-- There is no original, or it has not been seen. -/
  missing : had = false → (∀ path, s.files (.named path) = files path) ∧
    (files call.identityPath = none ∨
      ∃ f ∈ call.failure, f.Blinds .hadOriginal .lexists)

/-- Of the files that have names, only the identity has changed. -/
def Restores (call : Call Id) (s s' : Machine) : Prop :=
  ∀ path, path ≠ call.identityPath → s'.files (.named path) = s.files (.named path)

variable {bytes : Bytes} {candidate : Id}

theorem publish_ends {had : Bool} {t : ℕ}
    (h : call.Ready files had bytes candidate t s) {Q : Id → Machine → Prop} {E : Machine → Prop}
    (hQ : ∀ id' s', call.Restores s s' → s'.files call.identity = some (.file bytes 1) →
      s'.stagedPath = none → s'.restoreSucceeded = true →
      files call.identityPath ≠ some .directory → Q id' s')
    (hE : ∀ s', call.Restores s s' →
      (s'.stagedPath = none ∨ s'.stagedPath = some (.temporary t)) →
      s'.restoreSucceeded = false → (call.Fails .publish ∨ call.Fails .restored ∨
        files call.identityPath = some .directory) → E s') :
    Ends (call.publish bytes (.temporary t) candidate) Q E s := by
  let moved := (s.put (.temporary t) none).put call.identity (some (.file bytes 1))
  let published : Machine := { moved with stagedPath := none }
  have hmoved : call.Restores s moved := fun path hne => by simp [moved, identity, hne]
  have hfile : published.files call.identity = some (.file bytes 1) := Function.update_self ..
  have hfail : ∀ s', Frame ∅ published s' → call.Fails .publish ∨ call.Fails .restored → E s' :=
    fun s' h' hwhy => hE s' (fun path hne => (h'.named (Set.notMem_empty _)).trans (hmoved path hne))
      (.inl h'.stagedPath) (h'.restoreSucceeded.trans h.restoreSucceeded) (hwhy.imp_right .inl)
  have hparses : call.Parses bytes := ⟨candidate, h.parsed⟩
  refine .bind (replace_ends h.staged (fun hdest => ?_) (fun hwhy => ?_) fun hwhy => ?_)
  · refine .modify_bind (s := moved) (f := fun s => { s with stagedPath := none }) ?_
    have hnow : call.Fails .publish → E published := fun h => hfail published (.refl _ _) (.inl h)
    refine .bind (look_ends (.bind (look_ends ?_ hnow)) hnow)
    refine .bind (readIdentityBytes_ends (fun bytes' hbytes' _ => ?_) fun hwhy =>
      hfail published (.refl _ _) (.inr (hwhy.resolve_right (not_not.2 ⟨bytes, hfile, h.length⟩))))
    rw [hfile] at hbytes'
    cases hbytes'
    refine .bind (stageIdentityBytes_ends (fun s₁ h₁ _ hstage _ => ?_) fun s₁ h₁ hwhy =>
      hfail s₁ h₁ (.inr (hwhy.resolve_right (by simp [h.restorable.1]))))
    have hun : ∀ s', Frame {.temporary published.temps} s₁ s' → Frame ∅ published s' :=
      fun s' h' => h₁.unstage h'
    have hwhy : call.Fails .restored ∨ ¬ call.Parses bytes →
        call.Fails .publish ∨ call.Fails .restored :=
      fun hwhy => .inr (hwhy.resolve_right (not_not.2 hparses))
    refine .bind (.tryFinally
      (Q := fun parsed s' => s' = s₁ ∧ (parsed = some candidate ∨ parsed = none ∧ call.Fails .restored))
      (E := fun s' => s' = s₁ ∧ call.Fails .restored)
      (.onException (identityFromFile_ends hstage (fun id' hid => ?_) (fun h => ?_) fun h => ?_))
      ?_ ?_)
    · rw [h.parsed] at hid
      cases hid
      exact ⟨rfl, .inl rfl⟩
    · exact ⟨rfl, .inr ⟨rfl, h.resolve_right (not_not.2 hparses)⟩⟩
    · exact ⟨rfl, h.resolve_right (not_not.2 hparses)⟩
    · rintro parsed s' ⟨rfl, hparsed⟩
      refine unlinkIfPresent_ends (fun s'' h' => ?_) fun s'' h' hwhy => ?_
      · rcases hparsed with rfl | ⟨rfl, hwhy⟩
        · have hverify : call.verify bytes bytes candidate candidate = true := by simp [verify]
          have h'' := hun s'' h'
          dsimp only
          rw [hverify]
          refine .modify_bind (hQ candidate _ (fun path hne => ?_) ?_ h''.stagedPath rfl fun hdir => ?_)
          · exact (h''.named (Set.notMem_empty _)).trans (hmoved path hne)
          · exact (h''.named (Set.notMem_empty _)).trans hfile
          · exact absurd (h.identity.trans hdir) hdest
        · exact hfail s'' (hun s'' h') (.inr hwhy)
      · refine hfail s'' (hun s'' h') (.inr (hwhy.resolve_right ?_))
        rw [hstage]
        simp
    · rintro s' ⟨rfl, hwhy⟩
      exact unlinkIfPresent_ends (fun s'' h' => hfail s'' (hun s'' h') (.inr hwhy))
        fun s'' h' _ => hfail s'' (hun s'' h') (.inr hwhy)
  · exact hE s (fun _ _ => rfl) (.inr h.stagedPath) h.restoreSucceeded
      (hwhy.imp_right fun hdir => .inr (h.identity.symm.trans hdir))
  · exact hE moved hmoved (.inr h.stagedPath) h.restoreSucceeded (.inl hwhy)

/-! ## What follows a failure -/

/-- What is kept depends on the files that have names. -/
theorem Kept.congr (h : call.Kept files s)
    (hsame : ∀ path, s'.files (.named path) = s.files (.named path)) : call.Kept files s' := by
  rw [Kept] at h ⊢
  simpa only [identity, safety, backup, hsame] using h

/-- The safety copy has the bytes of the original. -/
theorem kept_of_safety {links n : ℕ} (horig : files call.identityPath = some (.file bytes links))
    (h : s.files call.safety = some (.file bytes n)) : call.Kept files s := by
  rw [Kept, horig]
  exact .inr ⟨n, h⟩

/-- The local variables are those of a restoration that has failed. -/
def Failed (s : Machine) : Prop :=
  s.restoreSucceeded = false ∧ (s.stagedPath = none ∨ ∃ t, s.stagedPath = some (.temporary t))

theorem Failed.frame {P : Set Path} (h : Failed s) (h' : Frame P s s') : Failed s' := by
  rwa [Failed, h'.restoreSucceeded, h'.stagedPath]

/-- The original is put back, or it is still in the safety copy. -/
theorem rollback_ends {original : Bytes}
    (horig : files call.identityPath = some (.file original 1))
    (hsafe : s.files call.safety = some (.file original 1)) (hs : Failed s) :
    Ends call.rollback (fun _ s' => call.Kept files s' ∧ Failed s')
      (fun s' => call.Kept files s' ∧ Failed s') s := by
  have hkept : ∀ s', s'.files call.safety = s.files call.safety → call.Kept files s' :=
    fun s' h => kept_of_safety horig (h.trans hsafe)
  refine .tryCatch (Q := fun _ s' => call.Kept files s' ∧ Failed s')
    (E := fun s' => call.Kept files s' ∧ Failed s') (.bind ?_) (fun _ _ h => h) fun _ _ h => h
  refine readIdentityBytes_ends (fun bytes hbytes _ => ?_) fun _ => ⟨hkept s rfl, hs⟩
  rw [hsafe] at hbytes
  cases hbytes
  refine .bind (atomicIdentityBytes_ends (fun s₁ h₁ hfile _ _ => ?_) fun s₁ h₁ _ _ =>
    ⟨hkept s₁ (h₁.named (Set.mem_singleton_iff.not.2 safety_ne_identity)), hs.frame h₁⟩)
  have hback : ∀ {s'}, Frame {call.safety} s₁ s' → call.Kept files s' ∧ Failed s' := fun h' =>
    ⟨by
      rw [Kept, horig]
      exact .inl ⟨1, (h'.named (Set.mem_singleton_iff.not.2 safety_ne_identity.symm)).trans hfile⟩,
    (hs.frame h₁).frame h'⟩
  have hput := hback (.put s₁ call.safety none)
  exact .bind (unlink_ends (look_ends hput fun _ => hput) (hback (.refl _ _)) fun _ => hput)

/-- What is undone after a failure loses nothing. -/
theorem undo_ends {had : Bool} {t : ℕ} {s₀ : Machine}
    (h : call.Ready files had bytes candidate t s₀) (hrest : call.Restores s₀ s) (hs : Failed s)
    (hwhy : call.Fails .publish ∨ call.Fails .restored ∨
      files call.identityPath = some .directory) :
    Ends (call.undo had) (fun _ s' => call.Kept files s' ∧ Failed s')
      (fun s' => call.Kept files s' ∧ Failed s') s := by
  rcases had with _ | _
  · -- without an original that has been seen, only the identity changes
    have hall : ∀ {s'}, Frame {call.identity} s s' → call.Kept files s' ∧ Failed s' := fun {s'} h' => by
      refine ⟨?_, hs.frame h'⟩
      rw [Kept]
      split
      · next b n hfile =>
        rcases (h.missing rfl).2 with hnone | ⟨f, hf, hb⟩
        · rw [hnone] at hfile
          cases hfile
        · rcases hwhy with ⟨g, hg, hp⟩ | ⟨g, hg, hp⟩ | hdir
          · cases Option.mem_unique hf hg
            exact absurd (hb.1.symm.trans hp) (by decide)
          · cases Option.mem_unique hf hg
            exact absurd (hb.1.symm.trans hp) (by decide)
          · rw [hdir] at hfile
            cases hfile
      · next hnone =>
        have hne : call.backupPath ≠ call.identityPath := fun heq => by
          have hb := h.backup
          rw [heq, hnone] at hb
          cases hb
        refine .inl (((h'.named ?_).trans (hrest _ hne)).trans ((h.missing rfl).1 _))
        exact fun hmem => hne (Path.named.inj (Set.mem_singleton_iff.1 hmem))
      · trivial
    have hput := hall (.put s call.identity none)
    exact .tryCatch (E := fun s' => call.Kept files s' ∧ Failed s')
      (.bind (unlink_ends (Q := fun _ => Ends _ (fun _ s' => call.Kept files s' ∧ Failed s') _)
        (look_ends hput fun _ => hput) (hall (.refl _ _)) fun _ => hput)) (fun _ _ h => h)
      fun e s' h => by
        split
        all_goals exact h
  · obtain ⟨-, original, horig, -, hsafe, -⟩ := h.copied rfl
    have hsafe' : s.files call.safety = some (.file original 1) := (hrest _ fun heq =>
      safety_ne_identity (congrArg Path.named heq)).trans hsafe
    have hnow : call.Kept files s ∧ Failed s := ⟨kept_of_safety horig hsafe', hs⟩
    refine .bind (test_ends (fun _ => ?_) (fun _ _ _ => hnow) fun _ _ _ _ => hnow)
    split
    · exact rollback_ends horig hsafe' hs
    · exact hnow

/-- After a failure, the clean-up removes a temporary file. -/
theorem cleanUp_ends_failed (hkept : call.Kept files s) (hs : Failed s) :
    Ends call.cleanUp (fun _ s' => call.Kept files s') (call.Kept files) s := by
  have hrest : ∀ {s'}, (∀ path, s'.files (.named path) = s.files (.named path)) →
      Failed s' → Ends (do
        if (← get).restoreSucceeded then
          suppressNotFound (do
            call.unlink .drop call.safety
            call.fsyncDirectory .drop)) (fun _ s' => call.Kept files s') (call.Kept files) s' :=
    fun {s'} hsame h => by
      refine .get_bind ?_
      rw [if_neg (by simp [h.1])]
      exact hkept.congr hsame
  refine .get_bind ?_
  rcases hs.2 with hstaged | ⟨t, hstaged⟩
  · rw [hstaged]
    exact hrest (fun _ => rfl) hs
  · rw [hstaged]
    have hsame : ∀ {s'}, Frame {.temporary t} s s' → ∀ path,
        s'.files (.named path) = s.files (.named path) := fun h' path => h'.named (by simp)
    exact .bind (unlinkIfPresent_ends (fun s' h' => hrest (hsame h') (hs.frame h'))
      fun s' h' _ => hkept.congr (hsame h'))

/-! ## What follows a success -/

/-- The restoration is done: what is lost can only be lost by what is still to come, the
    release of the lock. -/
structure Done (call : Call Id) (files : String → Option Node) (s : Machine) : Prop where
  restored : ∃ bytes links, files call.backupPath = some (.file bytes links) ∧
    s.files call.identity = some (.file bytes links)
  verdict : ∀ f ∈ call.failure, f.place = .lock → f.Late → call.Verdict files s
  loses : call.Loses files → ∃ f ∈ call.failure, f.place = .lock ∧ f.Late

/-- The bytes of the original are those of the backup, or they are lost. -/
theorem kept_iff_of_gone {original : Bytes} {links n : ℕ}
    (horig : files call.identityPath = some (.file original links))
    (hid : s.files call.identity = some (.file bytes n))
    (hsafe : ∀ b m, s.files call.safety ≠ some (.file b m)) :
    call.Kept files s ↔ original = bytes := by
  rw [Kept, horig]
  constructor
  · rintro (⟨m, h⟩ | ⟨m, h⟩)
    · rw [hid] at h
      cases h
      rfl
    · exact absurd h (hsafe _ _)
  · rintro rfl
    exact .inl ⟨n, hid⟩

section Restored

variable {had : Bool} {bytes : Bytes} {candidate : Id} {t : ℕ} {s₀ : Machine}

theorem Ready.loses_iff (h : call.Ready files had bytes candidate t s₀) {original : Bytes} {links : ℕ}
    (horig : files call.identityPath = some (.file original links)) :
    call.Loses files ↔ original ≠ bytes ∧ ∃ f ∈ call.failure,
      f.Late ∧ links = 1 ∧ original.length ≤ maxIdentityBytes ∧
          files call.safetyPath ≠ some .directory ∨
        f.Blinds .hadOriginal .lexists ∧ files call.safetyPath = some .directory := by
  constructor
  · rintro ⟨-, b, n, horig', hne, hwhy⟩
    rw [horig] at horig'
    cases horig'
    exact ⟨fun heq => hne 1 (heq ▸ h.backup), hwhy⟩
  · rintro ⟨hne, hwhy⟩
    refine ⟨h.restorable, original, links, horig, fun n hn => hne ?_, hwhy⟩
    rw [h.backup] at hn
    cases hn
    rfl

/-- Without the safety copy, a failure that comes late loses an original that differs. -/
theorem Ready.verdict_late (h : call.Ready files true bytes candidate t s₀) {f : Failure}
    (hf : f ∈ call.failure) (hlate : f.Late) (hid : s.files call.identity = some (.file bytes 1))
    (hsafe : s.files call.safety = none) : call.Verdict files s := by
  obtain ⟨-, original, horig, hlen, -, hdir⟩ := h.copied rfl
  rw [Verdict, kept_iff_of_gone horig hid (by simp [hsafe]), h.loses_iff horig]
  constructor
  · exact fun heq hl => hl.1 heq
  · intro hl
    by_contra hne
    exact hl ⟨hne, f, hf, .inl ⟨hlate, rfl, hlen, hdir⟩⟩

/-- Without an original that has been seen, nothing is lost late. -/
theorem Ready.not_loses (h : call.Ready files false bytes candidate t s₀)
    (hdir : files call.safetyPath ≠ some .directory) : ¬ call.Loses files := by
  rintro ⟨-, b, n, horig, -, f, hf, ⟨hlate, -⟩ | ⟨-, hd⟩⟩
  · rcases (h.missing rfl).2 with hnone | ⟨g, hg, hb⟩
    · rw [hnone] at horig
      cases horig
    · cases Option.mem_unique hf hg
      rcases hlate.place with hp | hp
      all_goals exact absurd (hb.1.symm.trans hp) (by decide)
  · exact hdir hd

/-- The call is done once the safety copy is gone, unless an exception has come late. -/
theorem Ready.done (h : call.Ready files had bytes candidate t s₀)
    (hid : s.files call.identity = some (.file bytes 1))
    (hsafe : had = true → s.files call.safety = none)
    (hdir : had = false → files call.safetyPath ≠ some .directory)
    (hno : had = true → ∀ f ∈ call.failure, f.place = .drop → ¬ f.Late) :
    call.Done files s := by
  refine ⟨⟨bytes, 1, h.backup, hid⟩, fun f hf hp hlate => ?_, fun hloses => ?_⟩
  · rcases had with _ | _
    · refine Kept.verdict ?_ (h.not_loses (hdir rfl))
      rcases (h.missing rfl).2 with hnone | ⟨g, hg, hb⟩
      · rw [Kept, hnone]
        exact .inr (hid.trans h.backup.symm)
      · cases Option.mem_unique hf hg
        exact absurd (hb.1.symm.trans hp) (by decide)
    · exact h.verdict_late hf hlate hid (hsafe rfl)
  · rcases had with _ | _
    · exact absurd hloses (h.not_loses (hdir rfl))
    · obtain ⟨-, b, n, -, -, f, hf, ⟨hlate, -⟩ | ⟨hb, -⟩⟩ := hloses
      · exact ⟨f, hf, hlate.place.resolve_left fun hp => hno rfl f hf hp hlate, hlate⟩
      · exact absurd hb ((h.copied rfl).1 f hf)

/-- Without an original that has been seen, there is none if the exception of the run is
    elsewhere. -/
theorem Ready.missing_of_drop (h : call.Ready files false bytes candidate t s₀) {f : Failure}
    (hf : f ∈ call.failure) (hp : f.place = .drop) : files call.identityPath = none := by
  rcases (h.missing rfl).2 with hnone | ⟨g, hg, hb⟩
  · exact hnone
  · cases Option.mem_unique hf hg
    exact absurd (hb.1.symm.trans hp) (by decide)

/-- An exception in the clean-up that does not come late loses nothing. -/
theorem not_loses_of_drop {f : Failure} (hf : f ∈ call.failure) (hp : f.place = .drop)
    (hlate : ¬ f.Late) : ¬ call.Loses files := by
  rintro ⟨-, _, _, -, -, g, hg, ⟨hl, -⟩ | ⟨hb, -⟩⟩
  · cases Option.mem_unique hf hg
    exact hlate hl
  · cases Option.mem_unique hf hg
    exact absurd (hb.1.symm.trans hp) (by decide)

/-- The clean-up after a success: once the safety copy has been removed, an exception loses
    an original that differs from the backup. -/
theorem cleanUp_ends_restored (h : call.Ready files had bytes candidate t s₀)
    (hrest : call.Restores s₀ s) (hid : s.files call.identity = some (.file bytes 1))
    (hstaged : s.stagedPath = none) (hsucceeded : s.restoreSucceeded = true) :
    Ends call.cleanUp (fun _ => call.Done files) (call.Verdict files) s := by
  have hsafe : s.files call.safety = s₀.files call.safety := hrest _ fun heq =>
    safety_ne_identity (congrArg Path.named heq)
  let gone := s.put call.safety none
  have hgone : gone.files call.identity = some (.file bytes 1) := by
    simp [gone, safety_ne_identity.symm, hid]
  have hnone : gone.files call.safety = none := by simp [gone]
  have hseen : had = false → s.files call.safety = files call.safetyPath := by
    rintro rfl
    exact hsafe.trans ((h.missing rfl).1 _)
  have hkept : ∀ f ∈ call.failure, f.place = .drop → call.Kept files s := fun f hf hp => by
    rcases had with _ | _
    · rw [Kept, h.missing_of_drop hf hp]
      exact .inr (hid.trans h.backup.symm)
    · obtain ⟨-, original, horig, -, hcopy, -⟩ := h.copied rfl
      exact kept_of_safety horig (hsafe.trans hcopy)
  have hlost : ∀ f ∈ call.failure, f.place = .drop → f.Late → call.Verdict files gone :=
    fun f hf hp hlate => by
      rcases had with _ | _
      · have horig := h.missing_of_drop hf hp
        refine Kept.verdict ?_ (not_loses_of_ne (by simp [horig]))
        rw [Kept, horig]
        exact .inr (hgone.trans h.backup.symm)
      · exact h.verdict_late hf hlate hgone hnone
  have herr : ∀ {e : Raised} {s'}, (e = .fileNotFound → call.Done files s') →
      (e ≠ .fileNotFound → call.Verdict files s') →
      wp (if e = .fileNotFound then pure () else throw e : M Unit) (fun _ => call.Done files)
        (fun _ => call.Verdict files) (fun _ => False) s' := fun hdone hverdict => by
    split
    · next he => exact hdone he
    · next he => exact hverdict he
  rw [cleanUp]
  refine .get_bind ?_
  rw [hstaged]
  refine .get_bind ?_
  rw [if_pos hsucceeded, Ends, suppressNotFound, wp_tryCatch, wp_bind]
  refine wp_unlink (fun hdir hno => ?_) (fun hmissing => ?_) (fun hdir => ?_)
    fun hdir f hf hp ho => ?_
  · -- the safety copy is removed, and the directory is synced
    refine wp_step (fun hno' => ?_) fun f hf hp ho => ?_
    · refine h.done hgone (fun _ => hnone) (fun hfalse => hseen hfalse ▸ hdir) fun _ f hf hp hl => ?_
      rcases hl with ⟨-, -, ho | ⟨ho, -⟩⟩ | ⟨hlock, -⟩
      · exact hno' f hf ⟨hp, ho⟩
      · exact hno f hf ⟨hp, ho⟩
      · exact absurd (hp.symm.trans hlock) (by decide)
    · rw [show (if f.after then id gone else gone) = gone by simp]
      refine herr (fun he => ?_) fun he => hlost f hf hp (.inl ⟨hp, he, .inl ho⟩)
      refine h.done hgone (fun _ => hnone) (fun hfalse => hseen hfalse ▸ hdir) fun _ g hg _ hl => ?_
      cases Option.mem_unique hf hg
      rcases hl with ⟨-, hne, -⟩ | ⟨hlock, -⟩
      · exact hne he
      · exact absurd (hp.symm.trans hlock) (by decide)
  · -- there is no safety copy
    refine herr (fun _ => ?_) fun hne => absurd rfl hne
    rcases had with _ | _
    · refine h.done hid (fun hhad => by cases hhad) (fun _ hdir => ?_) fun hhad => by cases hhad
      rw [← hseen rfl, hmissing] at hdir
      cases hdir
    · obtain ⟨-, original, -, -, hcopy, -⟩ := h.copied rfl
      rw [hsafe, hcopy] at hmissing
      cases hmissing
  · -- what is at the path of the safety copy is not one
    refine herr (fun he => absurd he (by decide)) fun _ => ?_
    rcases had with _ | _
    · rw [hseen rfl] at hdir
      rcases horig : files call.identityPath with _ | ⟨original, n⟩ | _ | _
      · refine Kept.verdict ?_ (not_loses_of_ne (by simp [horig]))
        rw [Kept, horig]
        exact .inr (hid.trans h.backup.symm)
      · have hhidden := (h.missing rfl).2.resolve_left (by simp [horig])
        rw [Verdict, kept_iff_of_gone horig hid (by simp [hseen rfl, hdir]), h.loses_iff horig]
        constructor
        · exact fun heq hl => hl.1 heq
        · intro hl
          by_contra hne
          obtain ⟨f, hf, hb⟩ := hhidden
          exact hl ⟨hne, f, hf, .inr ⟨hb, hdir⟩⟩
      all_goals
        refine Kept.verdict ?_ (not_loses_of_ne (by simp [horig]))
        rw [Kept, horig]
        trivial
    · obtain ⟨-, original, -, -, hcopy, -⟩ := h.copied rfl
      rw [hsafe, hcopy] at hdir
      cases hdir
  · -- the exception is that of removing the safety copy, before it or after it
    by_cases hafter : f.after = true
    · rw [if_pos hafter]
      refine herr (fun he => ?_) fun he => hlost f hf hp (.inl ⟨hp, he, .inr ⟨ho, hafter⟩⟩)
      refine h.done hgone (fun _ => hnone) (fun hfalse => hseen hfalse ▸ hdir) fun _ g hg _ hl => ?_
      cases Option.mem_unique hf hg
      rcases hl with ⟨-, hne, -⟩ | ⟨hlock, -⟩
      · exact hne he
      · exact absurd (hp.symm.trans hlock) (by decide)
    · rw [if_neg hafter]
      have hlate : ¬ f.Late := by
        rintro (⟨-, -, ho' | ⟨-, h⟩⟩ | ⟨hlock, -⟩)
        · exact absurd (ho.symm.trans ho') (by decide)
        · exact hafter h
        · exact absurd (hp.symm.trans hlock) (by decide)
      have hloses : ¬ call.Loses files := not_loses_of_drop hf hp hlate
      refine herr (fun _ => ⟨⟨bytes, 1, h.backup, hid⟩, fun g hg hlock => ?_, fun hl =>
        absurd hl hloses⟩) fun _ => (hkept f hf hp).verdict hloses
      cases Option.mem_unique hf hg
      exact absurd (hp.symm.trans hlock) (by decide)

end Restored

/-! ## The call -/

/-- The restoration, once the candidate is ready. -/
theorem replaceOriginal_ends {had : Bool} {t : ℕ} (h : call.Ready files had bytes candidate t s) :
    Ends (call.replaceOriginal bytes (.temporary t) candidate had) (fun _ => call.Done files)
      (call.Verdict files) s := by
  refine .tryFinally (Q := fun _ s' => call.Restores s s' ∧
      s'.files call.identity = some (.file bytes 1) ∧ s'.stagedPath = none ∧
      s'.restoreSucceeded = true)
    (E := fun s' => (call.Kept files s' ∧ Failed s') ∧ ¬ call.Loses files)
    (.tryCatch (E := fun s' => call.Restores s s' ∧ Failed s' ∧ (call.Fails .publish ∨
      call.Fails .restored ∨ files call.identityPath = some .directory))
      (publish_ends h (fun _ s' hrest hid hstaged hsucceeded _ => ⟨hrest, hid, hstaged, hsucceeded⟩)
        fun s' hrest hstaged hsucceeded hwhy =>
          ⟨hrest, ⟨hsucceeded, hstaged.imp_right fun h => ⟨t, h⟩⟩, hwhy⟩)
      (fun _ _ h => h) fun e s' => ?_) ?_ ?_
  · rintro ⟨hrest, hfailed, hwhy⟩
    have hloses : ¬ call.Loses files := by
      rcases hwhy with hwhy | hwhy | hwhy
      · exact not_loses_of_fails hwhy (by decide) (by decide) (by decide)
      · exact not_loses_of_fails hwhy (by decide) (by decide) (by decide)
      · rintro ⟨-, _, _, hb, -⟩
        rw [hwhy] at hb
        cases hb
    exact .bind ((undo_ends h hrest hfailed hwhy).mono (fun _ _ h => ⟨h, hloses⟩)
      fun _ h => ⟨h, hloses⟩)
  · rintro _ s' ⟨hrest, hid, hstaged, hsucceeded⟩
    exact cleanUp_ends_restored h hrest hid hstaged hsucceeded
  · rintro s' ⟨⟨hkept, hfailed⟩, hloses⟩
    exact (cleanUp_ends_failed hkept hfailed).mono (fun _ _ h => h.verdict hloses)
      fun _ h => h.verdict hloses

/-- The program between taking the lock and releasing it. -/
theorem restoreLocked_ends (hlockable : call.lockable = true) :
    Ends call.restoreLocked (fun _ => call.Done files) (call.Verdict files) (start files) := by
  have hs : ∀ path, (start files).files (.named path) = files path := fun _ => rfl
  have hkept : ¬ call.Loses files → call.Verdict files (start files) := fun h =>
    (kept_of_named hs).verdict h
  have hnot : ∀ f ∈ call.failure, f.place = .isBackup → call.Verdict files (start files) :=
    fun f hf hp => hkept (not_loses_of_fails ⟨f, hf, hp⟩ (by decide) (by decide) (by decide))
  refine .bind (test_ends (fun _ => ?_) (fun f hf hb => ?_) fun f hf hp _ => hnot f hf hp)
  · rcases hfile : (start files).isFile call.backup with _ | _
    · refine hkept (not_loses_of_not_restorable fun ⟨_, _, bytes, hb, _⟩ => ?_)
      rw [Machine.isFile, show (start files).files call.backup = _ from hb] at hfile
      cases hfile
    · refine .bind (stageCandidate_ends hs fun bytes candidate s₁ h₁ htemps hstage hacc hbackup
        hlen hparsed => ?_)
      let s₂ : Machine := { s₁ with stagedPath := some (.temporary 0) }
      have hs₂ : ∀ path, s₂.files (.named path) = files path :=
        fun path => named_all h₁ hs path
      have hready : ∀ had s₃, Frame {call.safety} s₂ s₃ → _ → _ →
          call.Ready files had bytes candidate 0 s₃ := fun had s₃ h₃ hcopied hmissing =>
        { restorable := ⟨hacc, hlockable, bytes, hbackup, hlen, candidate, hparsed⟩
          backup := hbackup
          length := hlen
          parsed := hparsed
          identity := (h₃.named fun hmem => safety_ne_identity
            (Set.mem_singleton_iff.1 hmem).symm).trans (hs₂ _)
          staged := (h₃.files (.temporary 0) htemps (by simp [safety])).trans hstage
          stagedPath := h₃.stagedPath
          temps := Nat.lt_of_lt_of_le htemps h₃.temps
          restoreSucceeded := h₃.restoreSucceeded.trans h₁.restoreSucceeded
          copied := hcopied
          missing := hmissing }
      refine .modify_bind (s := s₁) (f := fun s => { s with stagedPath := some (.temporary 0) })
        (.bind (test_ends (fun hshown => ?_) (fun f hf hb => ?_) fun f hf hp hb => ?_))
      · rcases hhad : (s₂.files call.identity).isSome with _ | _
        · have hnone : files call.identityPath = none := by
            have hmissing : s₂.files call.identity = none := by simpa using hhad
            exact (hs₂ _).symm.trans hmissing
          exact replaceOriginal_ends (hready false s₂ (.refl _ _) nofun fun _ => ⟨hs₂, .inl hnone⟩)
        · have horig : files call.identityPath ≠ none := fun hnone => by
            rw [show s₂.files call.identity = _ from hs₂ _, hnone] at hhad
            cases hhad
          refine .bind (copyOriginal_ends hs₂ hshown horig fun original s₃ h₃ hcopy horig hlen
            hdir => ?_)
          exact replaceOriginal_ends (hready true s₃ h₃ (fun _ => ⟨hshown, original, horig, hlen,
            hcopy, hdir⟩) nofun)
      · exact replaceOriginal_ends (hready false s₂ (.refl _ _) nofun fun _ =>
          ⟨hs₂, .inr ⟨f, hf, hb⟩⟩)
      · refine (kept_of_named hs₂).verdict ?_
        rintro ⟨-, _, _, -, -, g, hg, ⟨hlate, -⟩ | ⟨hb', -⟩⟩
        · cases Option.mem_unique hf hg
          rcases hlate.place with h | h
          all_goals exact absurd (hp.symm.trans h) (by decide)
        · cases Option.mem_unique hf hg
          exact hb hb'
  · exact hnot f hf hb.1

/-- The lock is released; an exception that is not suppressed here comes late. -/
theorem release_ends {Q : Machine → Prop} {E : Machine → Prop}
    (hQ : (∀ f ∈ call.failure, f.place = .lock → ¬ f.Late) → Q s)
    (hE : ∀ f ∈ call.failure, f.place = .lock → f.Late → E s) :
    Ends call.release (fun _ => Q) E s := by
  have hunlock : wp (MonadExcept.tryCatch (call.step .lock .unlock id) fun e =>
        if e.isOSError then pure () else throw e)
      (fun _ s' => s' = s ∧ ∀ f ∈ call.failure, f.place = .lock → f.op = .unlock →
        f.raised.isOSError = true) (fun _ => E) (fun _ => False) s := by
    rw [wp_tryCatch]
    refine wp_step (fun hno => ⟨rfl, fun f hf hp ho => absurd ⟨hp, ho⟩ (hno f hf)⟩)
      fun f hf hp ho => ?_
    rw [show (if f.after then id s else s) = s by simp]
    split
    · next hos =>
      refine ⟨rfl, fun g hg _ _ => ?_⟩
      cases Option.mem_unique hf hg
      exact hos
    · next hos => exact hE f hf hp (.inr ⟨hp, .inr ⟨ho, by simpa using hos⟩⟩)
  rw [Ends, release, wp_bind]
  refine wp_mono hunlock ?_ (fun _ _ h => h) fun _ h => h
  rintro - s' ⟨rfl, hno⟩
  refine wp_step (fun hno' => hQ fun f hf hp hlate => ?_) fun f hf hp ho => ?_
  · rcases hlate with ⟨hdrop, -⟩ | ⟨-, ho | ⟨ho, hos⟩⟩
    · exact absurd (hp.symm.trans hdrop) (by decide)
    · exact hno' f hf ⟨hp, ho⟩
    · rw [hno f hf hp ho] at hos
      cases hos
  · rw [show (if f.after then id s' else s') = s' by simp]
    exact hE f hf hp (.inr ⟨hp, .inl ho⟩)

theorem restoreIdentity_ends : Ends call.restoreIdentity
    (fun _ s => (∃ bytes links, files call.backupPath = some (.file bytes links) ∧
      s.files call.identity = some (.file bytes links)) ∧ ¬ call.Loses files)
    (call.Verdict files) (start files) := by
  have hkept : ¬ call.Loses files → call.Verdict files (start files) :=
    (kept_of_named (s := start files) fun _ => rfl).verdict
  have hlook : ∀ {op}, op ≠ .close → op ≠ .unlock → ∀ f ∈ call.failure, f.place = .lock →
      f.op = op → call.Verdict files (start files) := by
    intro op hclose hunlock f hf hp ho
    refine hkept ?_
    rintro ⟨-, _, _, -, -, g, hg, ⟨hlate, -⟩ | ⟨hb, -⟩⟩
    · cases Option.mem_unique hf hg
      rcases hlate with ⟨hdrop, -⟩ | ⟨-, ho' | ⟨ho', -⟩⟩
      · exact absurd (hp.symm.trans hdrop) (by decide)
      · exact hclose (ho.symm.trans ho')
      · exact hunlock (ho.symm.trans ho')
    · cases Option.mem_unique hf hg
      exact absurd (hp.symm.trans hb.1) (by decide)
  refine Ends.bind (ensureParent_ends_at (fun _ => ?_) (hlook (by decide) (by decide)) fun h =>
    hkept (not_loses_of_not_restorable fun hr => by simp [hr.1] at h))
  refine Ends.bind (Ends.onOSError (look_ends_at ?_ (hlook (by decide) (by decide))))
  refine .tryFinally (Q := fun _ => call.Done files)
    (E := call.Verdict files)
    (Ends.onOSError (Ends.bind (look_ends_at ?_ (hlook (by decide) (by decide))))) ?_ ?_
  · rcases hlockable : call.lockable with _ | _
    · exact hkept (not_loses_of_not_restorable fun hr => by simp [hr.2.1] at hlockable)
    · exact .bind (look_ends_at (restoreLocked_ends hlockable)
        (hlook (by decide) (by decide)))
  · intro _ s' hdone
    refine release_ends (fun hno => ⟨hdone.restored, fun hl => ?_⟩) hdone.verdict
    obtain ⟨f, hf, hp, hlate⟩ := hdone.loses hl
    exact hno f hf hp hlate
  · exact fun s' h => release_ends (fun _ => h) fun _ _ _ _ => h

end Call

/-- A restoration is all or nothing unless it loses the original: for that, the exception
    must come at the end of a restoration that has succeeded, when the safety copy of an
    original that differs from the backup has been removed, or hide the original. -/
theorem restore_all_or_nothing_iff (call : Call Id) (files : String → Option Node) :
    call.AllOrNothing files ↔ ¬ call.Loses files := by
  have h : Ends call.restoreIdentity
      (fun _ s => (∃ bytes links, files call.backupPath = some (.file bytes links) ∧
        s.files call.identity = some (.file bytes links)) ∧ ¬ call.Loses files)
      (call.Verdict files) (Call.start files) := Call.restoreIdentity_ends
  rw [Ends] at h
  constructor
  · intro hall
    rcases hrun : call.restoreIdentity (Call.start files) with ⟨_ | e | _, s⟩
    · exact (wp_ok h hrun).2
    · exact (wp_raised h hrun).1 (wp_raised (E := fun _ s => call.Kept files s) hall hrun)
    · exact (wp_halted h hrun).elim
  · intro hloses
    exact wp_mono h (fun _ _ h => h.1) (fun _ _ h => h.2 hloses) fun _ h => h

/-- The sync of the directory fails after the safety copy has been removed. -/
def unsynced : Call Unit where
  identityPath := "/identity"
  backupPath := "/backup"
  stamp := "1-1"
  fromFile bytes := .ok (if bytes = [] then none else some ())
  catches _ := false
  identityHash _ := none
  sha256 := id
  accepted := true
  lockable := true
  failure := some ⟨.drop, .fsyncDirectory, false, .osError⟩

def twoIdentities (path : String) : Option Node :=
  if path = "/identity" then some (.file [0] 1)
  else if path = "/backup" then some (.file [1] 1) else none

theorem unsynced_loses_identity : ¬ unsynced.AllOrNothing twoIdentities := by
  intro h
  have hkept := wp_raised h (e := .identityPersistence) rfl
  rw [Call.Kept] at hkept
  rcases hkept with ⟨_, h⟩ | ⟨_, h⟩
  · cases h
  · cases h

end ReticulumPi.Identity
