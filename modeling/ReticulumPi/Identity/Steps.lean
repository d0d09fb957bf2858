import Mathlib.Data.Set.Insert
import ReticulumPi.Identity.Restore

/-!
# What the steps of a restoration do

For each function that `restore_identity` calls, what it leaves behind if it returns and
what if it raises: which files it may have changed (`Frame`), and that it raises only for
the exception of the run or for what the files are like.
-/

namespace ReticulumPi.Identity

open Prog

variable {Id α β : Type} {s s' s'' : Machine}

/-! ## Frames -/

/-- The path is not of a temporary file after the first `n`. -/
def Path.Older (n : ℕ) : Path → Prop
  | .named _ => True
  | .temporary k => k < n

/-- From `s` to `s'`, no file has changed but those of `P` and new temporary ones. -/
structure Frame (P : Set Path) (s s' : Machine) : Prop where
  files : ∀ path, path.Older s.temps → path ∉ P → s'.files path = s.files path
  temps : s.temps ≤ s'.temps
  stagedPath : s'.stagedPath = s.stagedPath
  restoreSucceeded : s'.restoreSucceeded = s.restoreSucceeded

namespace Frame

variable {P P' : Set Path}

theorem refl (P : Set Path) (s : Machine) : Frame P s s :=
  ⟨fun _ _ _ => rfl, Nat.le_refl _, rfl, rfl⟩

theorem _older {n m : ℕ} (h : n ≤ m) : ∀ {path : Path}, path.Older n → path.Older m
  | .named _, _ => trivial
  | .temporary _, hk => Nat.lt_of_lt_of_le hk h

/-- What is changed afterwards may be of the temporary files that are new since `s`. -/
theorem trans (h : Frame P s s') (h' : Frame P' s' s'')
    (hP : ∀ path ∈ P', path.Older s.temps → path ∈ P) : Frame P s s'' where
  files path hold hpath := by
    rw [h'.files path (_older h.temps hold) fun hmem => hpath (hP path hmem hold),
      h.files path hold hpath]
  temps := Nat.le_trans h.temps h'.temps
  stagedPath := h'.stagedPath.trans h.stagedPath
  restoreSucceeded := h'.restoreSucceeded.trans h.restoreSucceeded

theorem mono (h : Frame P s s') (hP : P ⊆ P') : Frame P' s s' :=
  ⟨fun path hold hpath => h.files path hold fun hmem => hpath (hP hmem), h.temps, h.stagedPath,
    h.restoreSucceeded⟩

theorem trans_same (h : Frame P s s') (h' : Frame P s' s'') : Frame P s s'' :=
  h.trans h' fun _ hmem _ => hmem

theorem put (s : Machine) (path : Path) (node : Option Node) : Frame {path} s (s.put path node) :=
  ⟨fun _ _ hne => Function.update_of_ne hne _ _, Nat.le_refl _, rfl, rfl⟩

/-- The next temporary file is a new one. -/
theorem fresh (h : Frame {.temporary s.temps} s s') : Frame ∅ s s' where
  files path hold _ := h.files path hold fun hmem => by
    rw [Set.mem_singleton_iff.1 hmem] at hold
    exact Nat.lt_irrefl _ hold
  temps := h.temps
  stagedPath := h.stagedPath
  restoreSucceeded := h.restoreSucceeded

/-- What is new since `s` may be removed. -/
theorem unstage (h : Frame P s s') (h' : Frame {.temporary s.temps} s' s'') : Frame P s s'' :=
  h.trans h' fun path hpath hold => by
    rw [Set.mem_singleton_iff.1 hpath] at hold
    exact absurd hold (Nat.lt_irrefl _)

theorem named {path : String} (h : Frame P s s') (hpath : Path.named path ∉ P) :
    s'.files (.named path) = s.files (.named path) := h.files _ trivial hpath

end Frame

@[simp] theorem put_files (s : Machine) (path path' : Path) (node : Option Node) :
    (s.put path node).files path' = if path' = path then node else s.files path' :=
  Function.update_apply _ _ _ _

/-! ## Programs that end -/

/-- Run from `s`, `x` leaves a state of `Q` if it returns, and of `E` if it raises. -/
def Ends (x : Call.M α) (Q : α → Machine → Prop) (E : Machine → Prop) (s : Machine) : Prop :=
  wp x Q (fun _ => E) (fun _ => False) s

namespace Ends

variable {x : Call.M α} {Q Q' : α → Machine → Prop} {R : β → Machine → Prop}
  {E E' : Machine → Prop}

theorem mono (h : Ends x Q E s) (hQ : ∀ a s', Q a s' → Q' a s') (hE : ∀ s', E s' → E' s') :
    Ends x Q' E' s := wp_mono h hQ (fun _ => hE) fun _ h => h

theorem pure {a : α} (h : Q a s) : Ends (Pure.pure a) Q E s := h

theorem throw {e : Raised} (h : E s) : Ends (MonadExcept.throw e) Q E s := h

theorem bind {f : α → Call.M β} (h : Ends x (fun a => Ends (f a) R E) E s) :
    Ends (x >>= f) R E s := by
  rwa [Ends, wp_bind]

theorem tryCatch {f : Raised → Call.M α} (h : Ends x Q E s) (hQ : ∀ a s', Q a s' → Q' a s')
    (hE : ∀ e s', E s' → Ends (f e) Q' E' s') : Ends (MonadExcept.tryCatch x f) Q' E' s := by
  rw [Ends, wp_tryCatch]
  exact wp_mono h hQ hE fun _ h => h

theorem tryFinally {fin : Call.M Unit} (h : Ends x Q E s)
    (hQ : ∀ a s', Q a s' → Ends fin (fun _ => Q' a) E' s')
    (hE : ∀ s', E s' → Ends fin (fun _ => E') E' s') : Ends (Prog.tryFinally x fin) Q' E' s := by
  rw [Ends, wp_tryFinally]
  exact wp_mono h hQ (fun _ => hE) fun _ h => h

/-- The state is read. -/
theorem get_bind {f : Machine → Call.M α} (h : Ends (f s) Q E s) : Ends (get >>= f) Q E s := h

theorem modify_bind {f : Machine → Machine} {k : Unit → Call.M α} (h : Ends (k ()) Q E (f s)) :
    Ends (modify f >>= k) Q E s := Ends.bind (x := modify f) h

theorem onOSError (h : Ends x Q E s) : Ends (Call.onOSError x) Q E s :=
  h.tryCatch (fun _ _ h => h) fun _ _ h => h

theorem onException (h : Ends x Q E s) : Ends (Call.onException x) Q E s :=
  h.tryCatch (fun _ _ h => h) fun _ _ h => h

end Ends

/-- The failure is of the `stat` of this step, and makes what it looks for missing. -/
def Failure.Blinds (f : Failure) (place : Place) (op : Op) : Prop :=
  f.place = place ∧ f.op = op ∧ (f.raised.isOSError ∨ f.raised = .valueError)

namespace Call

variable {call : Call Id} {place : Place} {op : Op}

/-- The exception of the run is at a step of the place. -/
def Fails (call : Call Id) (place : Place) : Prop := ∃ f ∈ call.failure, f.place = place

/-! ## The steps -/

variable {E : Machine → Prop}

variable {Q : Unit → Machine → Prop}

/-- A step, with the exception that may occur in it. -/
theorem wp_step {act : Machine → Machine} {E : Raised → Machine → Prop} {H : Machine → Prop}
    (hQ : (∀ f ∈ call.failure, ¬ (f.place = place ∧ f.op = op)) → Q () (act s))
    (hE : ∀ f ∈ call.failure, f.place = place → f.op = op →
      E f.raised (if f.after then act s else s)) : wp (call.step place op act) Q E H s := by
  rw [step]
  split
  · next f hf =>
    split
    · next hat =>
      have h := hE f hf hat.1 hat.2
      split <;> simp_all [wp, perform]
    · next hat =>
      refine hQ fun g hg => ?_
      cases Option.mem_unique hf hg
      exact hat
  · next hf => exact hQ fun g hg => by rw [hf] at hg; cases hg

theorem step_ends {act : Machine → Machine} (hQ : Q () (act s))
    (hE : call.Fails place → E s ∧ E (act s)) : Ends (call.step place op act) Q E s :=
  wp_step (fun _ => hQ) fun f hf hplace _ => by
    obtain ⟨hbefore, hafter⟩ := hE ⟨f, hf, hplace⟩
    split
    · exact hafter
    · exact hbefore

/-- A step without an effect. -/
theorem look_ends_at (hQ : Q () s) (hE : ∀ f ∈ call.failure, f.place = place → f.op = op → E s) :
    Ends (call.step place op id) Q E s :=
  wp_step (fun _ => hQ) fun f hf hplace hop => by
    rw [show (if f.after then id s else s) = s by simp]
    exact hE f hf hplace hop

theorem look_ends (hQ : Q () s) (hE : call.Fails place → E s) :
    Ends (call.step place op id) Q E s :=
  look_ends_at hQ fun f hf hplace _ => hE ⟨f, hf, hplace⟩

theorem ensureParent_ends_at (hQ : call.accepted = true → Q () s)
    (hE : ∀ f ∈ call.failure, f.place = place → f.op = op → E s)
    (hE' : call.accepted = false → E s) : Ends (call.ensureParent place op) Q E s := by
  refine .onOSError (.bind (look_ends_at ?_ hE))
  rcases h : call.accepted with _ | _
  · exact hE' h
  · exact hQ h

theorem ensureParent_ends (hQ : call.accepted = true → Q () s)
    (hE : call.Fails place ∨ call.accepted = false → E s) :
    Ends (call.ensureParent place op) Q E s :=
  ensureParent_ends_at hQ (fun f hf hplace _ => hE (.inl ⟨f, hf, hplace⟩)) fun h => hE (.inr h)

/-- A file that `_read_identity_bytes` accepts. -/
def Readable (node : Option Node) : Prop :=
  ∃ bytes, node = some (.file bytes 1) ∧ bytes.length ≤ maxIdentityBytes

variable {path : Path}

theorem openFile_ends (hQ : Q () s) (hE : call.Fails place ∨ ¬ Readable (s.files path) → E s) :
    Ends (call.openFile place path) Q E s := by
  have hfail : call.Fails place → E s := fun h => hE (.inl h)
  have hnot : (∀ bytes, s.files path ≠ some (.file bytes 1)) → E s := fun hno => by
    refine hE (.inr ?_)
    rintro ⟨bytes, h, -⟩
    exact hno bytes h
  rw [openFile]
  refine .get_bind ?_
  rcases hnode : s.files path with _ | ⟨_, _⟩ | _ | _
  · exact hnot fun bytes h => by simp [hnode] at h
  · exact look_ends hQ hfail
  · exact hnot fun bytes h => by simp [hnode] at h
  · exact look_ends hQ hfail

theorem readIdentityBytes_ends {Q : Bytes → Machine → Prop}
    (hQ : ∀ bytes, s.files path = some (.file bytes 1) → bytes.length ≤ maxIdentityBytes →
      Q bytes s) (hE : call.Fails place ∨ ¬ Readable (s.files path) → E s) :
    Ends (call.readIdentityBytes place path) Q E s := by
  have hfail : call.Fails place → E s := fun h => hE (.inl h)
  rw [readIdentityBytes]
  refine .bind (.onOSError (openFile_ends ?_ hE))
  -- whatever the file is closed after, the state is still `s`
  refine .tryFinally (Q := fun bytes s' => Q bytes s' ∧ s' = s)
    (E := fun s' => E s' ∧ s' = s) (.bind (look_ends (.get_bind ?_)
      fun h => ⟨hfail h, rfl⟩)) ?_ ?_
  · split
    · next bytes hnode =>
      refine .bind (.onOSError (look_ends ?_ fun h => ⟨hfail h, rfl⟩))
      refine .bind (.onOSError (look_ends ?_ fun h => ⟨hfail h, rfl⟩))
      refine .bind (look_ends ?_ fun h => ⟨hfail h, rfl⟩)
      split
      · next hlong =>
        refine ⟨hE (.inr ?_), rfl⟩
        rintro ⟨bytes', h, hle⟩
        rw [hnode] at h
        cases h
        exact absurd hlong (Nat.not_lt.2 hle)
      · next hlong => exact ⟨hQ bytes hnode (Nat.not_lt.1 hlong), rfl⟩
    · next hnone =>
      refine ⟨hE (.inr ?_), rfl⟩
      rintro ⟨bytes, h, -⟩
      exact hnone bytes h
  · rintro bytes s' ⟨h, rfl⟩
    exact look_ends h hfail
  · rintro s' ⟨h, rfl⟩
    exact look_ends h hfail

theorem test_ends {holds : Machine → Bool} {Q : Bool → Machine → Prop}
    (hQ : (∀ f ∈ call.failure, ¬ f.Blinds place op) → Q (holds s) s)
    (hblind : ∀ f ∈ call.failure, f.Blinds place op → Q false s)
    (hE : ∀ f ∈ call.failure, f.place = place → ¬ f.Blinds place op → E s) :
    Ends (call.test place op holds) Q E s := by
  have hstep : wp (call.step place op id)
      (fun _ s' => s' = s ∧ ∀ f ∈ call.failure, ¬ (f.place = place ∧ f.op = op))
      (fun e s' => s' = s ∧ ∃ f ∈ call.failure, f.place = place ∧ f.op = op ∧ f.raised = e)
      (fun _ => False) s :=
    wp_step (fun h => ⟨rfl, h⟩) fun f hf hp ho => ⟨by simp, f, hf, hp, ho, rfl⟩
  rw [Ends, test, wp_tryCatch, wp_bind]
  refine wp_mono hstep ?_ ?_ fun _ h => h
  · rintro - s' ⟨rfl, h⟩
    exact hQ fun f hf hb => h f hf ⟨hb.1, hb.2.1⟩
  · rintro e s' ⟨rfl, f, hf, hp, ho, rfl⟩
    split
    · next h => exact hblind f hf ⟨hp, ho, h⟩
    · next h => exact hE f hf hp fun hb => h hb.2.2

theorem wp_unlink {E : Raised → Machine → Prop} {H : Machine → Prop}
    (hQ : s.files path ≠ some .directory →
      (∀ f ∈ call.failure, ¬ (f.place = place ∧ f.op = .unlink)) → Q () (s.put path none))
    (hnone : s.files path = none → E .fileNotFound s)
    (hdir : s.files path = some .directory → E .osError s)
    (hE : s.files path ≠ some .directory → ∀ f ∈ call.failure, f.place = place → f.op = .unlink →
      E f.raised (if f.after then s.put path none else s)) :
    wp (call.unlink place path) Q E H s := by
  rw [unlink, wp_bind, wp_get]
  split
  · next h => exact hnone h
  · next h => exact hdir h
  · next hne h =>
    have hdir : s.files path ≠ some .directory := by
      rw [h]
      exact fun heq => hne (Option.some.inj heq)
    exact wp_step (hQ hdir) (hE hdir)

theorem unlink_ends (hQ : Q () (s.put path none))
    (hE : E s) (hE' : call.Fails place → E (s.put path none)) :
    Ends (call.unlink place path) Q E s := by
  refine wp_unlink (fun _ _ => hQ) (fun _ => hE) (fun _ => hE) fun _ f hf hplace _ => ?_
  split
  · exact hE' ⟨f, hf, hplace⟩
  · exact hE

theorem unlinkIfPresent_ends (hQ : ∀ s', Frame {path} s s' → Q () s')
    (hE : ∀ s', Frame {path} s s' → call.Fails place ∨ s.files path = some .directory → E s') :
    Ends (call.unlinkIfPresent place path) Q E s := by
  have hrefl := Frame.refl {path} s
  have hput := Frame.put s path none
  have hunlink : wp (call.unlink place path) (fun _ => Frame {path} s)
      (fun e s' => Frame {path} s s' ∧ (e = .fileNotFound ∨ call.Fails place ∨
        s.files path = some .directory)) (fun _ => False) s := by
    refine wp_unlink (fun _ _ => hput) (fun _ => ⟨hrefl, .inl rfl⟩)
      (fun h => ⟨hrefl, .inr (.inr h)⟩) fun _ f hf hplace _ => ⟨?_, .inr (.inl ⟨f, hf, hplace⟩)⟩
    split
    · exact hput
    · exact hrefl
  rw [Ends, unlinkIfPresent, suppressNotFound, wp_tryCatch]
  refine wp_mono hunlink (fun _ s' h => hQ s' h) (fun e s' h => ?_) fun _ h => h
  split
  · exact hQ s' h.1
  · next hne => exact hE s' h.1 (h.2.resolve_left hne)

/-- Bytes are staged in a new temporary file. -/
theorem stageIdentityBytes_ends {payload : Bytes} {Q : Path → Machine → Prop}
    (hQ : ∀ s', Frame ∅ s s' → s.temps < s'.temps →
      s'.files (.temporary s.temps) = some (.file payload 1) → call.accepted = true →
        Q (.temporary s.temps) s')
    (hE : ∀ s', Frame ∅ s s' → call.Fails place ∨ call.accepted = false → E s') :
    Ends (call.stageIdentityBytes place payload) Q E s := by
  have hrefl := Frame.refl ∅ s
  let path := Path.temporary s.temps
  let made : Machine := { s.put path (some (.file [] 1)) with temps := s.temps + 1 }
  let written := made.put path (some (.file payload 1))
  have hmade : Frame {path} s made :=
    ⟨(Frame.put s path _).files, Nat.le_succ _, rfl, rfl⟩
  have hwritten : Frame {path} s written := hmade.trans_same (.put made path _)
  -- the error path leaves some state in which only `path` has changed
  have hclean : ∀ s', Frame {path} s s' → call.Fails place → ∀ e R, Ends (do
      if !e.isException then throw e
      call.step place .close id
      call.unlinkIfPresent place path
      throw .identityPersistence : M Unit) R E s' := by
    intro s' h hfail e R
    have hE' : ∀ s'', Frame {path} s s'' → E s'' := fun s'' h => hE s'' h.fresh (.inl hfail)
    split
    · exact hE' s' h
    · refine .bind (look_ends ?_ fun _ => hE' s' h)
      refine .bind (unlinkIfPresent_ends (fun s'' h' => ?_) fun s'' h' _ => ?_)
      all_goals exact hE' s'' (h.trans_same h')
  refine .bind (ensureParent_ends (fun hacc => ?_) fun h => hE s hrefl h)
  refine .bind (.get_bind (.bind (step_ends ?_ fun h =>
    ⟨hE s hrefl (.inl h), hE made hmade.fresh (.inl h)⟩)))
  refine .bind (.tryCatch (Q := fun _ s' => s' = written)
    (E := fun s' => Frame {path} s s' ∧ call.Fails place) ?_ (fun _ _ h => ?_)
      fun e s' h => hclean s' h.1 h.2 e _)
  · refine .bind (look_ends ?_ fun h => ⟨hmade, h⟩)
    refine Ends.bind (step_ends ?_ fun h => ⟨⟨hmade, h⟩, hwritten, h⟩)
    exact look_ends rfl fun h => ⟨hwritten, h⟩
  · subst h
    refine Ends.bind (look_ends ?_ fun h => hE written hwritten.fresh (.inl h))
    exact hQ written hwritten.fresh (Nat.lt_succ_self _) (Function.update_self ..) hacc

/-- A file is moved over what is not a directory. -/
theorem replace_ends {src dest : Path} {node : Node} (hsrc : s.files src = some node)
    (hQ : s.files dest ≠ some .directory → Q () ((s.put src none).put dest (some node)))
    (hE : call.Fails place ∨ s.files dest = some .directory → E s)
    (hE' : call.Fails place → E ((s.put src none).put dest (some node))) :
    Ends (call.replace place src dest) Q E s := by
  refine .get_bind ?_
  split
  · next h => rw [hsrc] at h; cases h
  · next h => exact hE (.inr h)
  · next h hne =>
    rw [hsrc] at h
    cases h
    exact step_ends (hQ hne) fun h => ⟨hE (.inl h), hE' h⟩

/-- The bytes of a file are published at a path that is not of a temporary one. -/
theorem atomicIdentityBytes_ends {payload : Bytes} {path : String}
    (hQ : ∀ s', Frame {.named path} s s' → s'.files (.named path) = some (.file payload 1) →
      call.accepted = true → s.files (.named path) ≠ some .directory → Q () s')
    (hE : ∀ s', Frame {.named path} s s' → (s'.files (.named path) = s.files (.named path) ∨
      s'.files (.named path) = some (.file payload 1)) → (call.Fails place ∨
        call.accepted = false ∨ s.files (.named path) = some .directory) → E s') :
    Ends (call.atomicIdentityBytes place payload (.named path)) Q E s := by
  refine .bind (ensureParent_ends (fun hacc => ?_) fun h =>
    hE s (.refl _ s) (.inl rfl) (h.imp_right .inl))
  refine .bind (stageIdentityBytes_ends (fun s₁ h₁ htemps hfile _ => ?_) fun s₁ h₁ h =>
    hE s₁ (h₁.mono (Set.empty_subset _)) (.inl (h₁.named (Set.notMem_empty _)))
      (h.imp_right .inl))
  let src := Path.temporary s.temps
  let moved := (s₁.put src none).put (.named path) (some (.file payload 1))
  have hsame : s₁.files (.named path) = s.files (.named path) := h₁.named (Set.notMem_empty _)
  have hs₁ : Frame {.named path} s s₁ := h₁.mono (Set.empty_subset _)
  have hmoved : Frame {.named path} s moved :=
    (hs₁.unstage (.put s₁ src none)).trans_same (.put _ _ _)
  have hput : moved.files (.named path) = some (.file payload 1) := Function.update_self ..
  refine .bind (.tryCatch (Q := fun _ s' => s' = moved ∧
      s.files (.named path) ≠ some .directory)
    (E := fun s' => Frame {.named path} s s' ∧ (s'.files (.named path) = s.files (.named path) ∨
      s'.files (.named path) = some (.file payload 1)) ∧ (call.Fails place ∨
        call.accepted = false ∨ s.files (.named path) = some .directory)) ?_ ?_ ?_)
  · refine replace_ends hfile (fun h => ⟨rfl, hsame ▸ h⟩)
      (fun h => ⟨hs₁, .inl hsame, h.imp_right fun h => .inr (hsame ▸ h)⟩) fun h =>
        ⟨hmoved, .inr hput, .inl h⟩
  · rintro - s' ⟨rfl, hdir⟩
    have hfail : call.Fails place → E moved := fun h => hE moved hmoved (.inr hput) (.inl h)
    exact .onException (.bind (look_ends (look_ends (hQ moved hmoved hput hacc hdir)
      hfail) hfail))
  · rintro e s' ⟨h, hdest, hwhy⟩
    split
    · exact hE s' h hdest hwhy
    · have hun : ∀ s'', Frame {src} s' s'' → E s'' := fun s'' h' => by
        refine hE s'' (h.unstage h') ?_ hwhy
        rwa [h'.named (by simp)]
      exact Ends.bind (unlinkIfPresent_ends hun fun s'' h' _ => hun s'' h')

/-- What `from_file` makes an identity of. -/
def Parses (call : Call Id) (bytes : Bytes) : Prop := ∃ id, call.fromFile bytes = .ok (some id)

theorem identityFromFile_ends {bytes : Bytes} {Q : Option Id → Machine → Prop}
    (hfile : s.files path = some (.file bytes 1))
    (hQ : ∀ id, call.fromFile bytes = .ok (some id) → Q (some id) s)
    (hnone : call.Fails place ∨ ¬ call.Parses bytes → Q none s)
    (hE : call.Fails place ∨ ¬ call.Parses bytes → E s) :
    Ends (call.identityFromFile place path) Q E s := by
  refine .get_bind ?_
  rw [hfile]
  refine .tryCatch (Q := Q)
    (E := fun s' => s' = s ∧ (call.Fails place ∨ ¬ call.Parses bytes)) ?_ (fun _ _ h => h) ?_
  · refine .bind (look_ends ?_ fun h => ⟨rfl, .inl h⟩)
    rcases hparse : call.fromFile bytes with e | _ | id
    · exact ⟨rfl, .inr fun ⟨id, h⟩ => by rw [hparse] at h; cases h⟩
    · exact hnone (.inr fun ⟨id, h⟩ => by rw [hparse] at h; cases h)
    · exact hQ id hparse
  · rintro e s' ⟨rfl, hwhy⟩
    split
    · exact hnone hwhy
    · exact hE hwhy

end Call

end ReticulumPi.Identity
