import Mathlib.Tactic.FinCases
import ReticulumPi.FileTransfer.Store

/-!
# Publishing a received file

While a file is stored, the directory is what it would be without the call, but
for the temporary file (`Staged`) and, from the link on, the file under its name
(`Linked`, `Published`). Up to the link, an error leaves nothing behind. From
there on it leaves the file, since the error path removes the temporary name
only; and when the temporary file failed to close, the error path fails in its
turn, closing it again, and leaves the temporary file.

So a call is atomic, whatever it meets, unless the step that fails is one of
those (`atomic_iff`).
-/

namespace ReticulumPi.FileTransfer

open Prog Function List

variable {call : Call} {s s' : Machine} {α : Type} {Q : α → Machine → Prop}
  {E : Raised → Machine → Prop} {H : Machine → Prop}

/-! ## What is to be shown -/

namespace Call

/-- The random name of the temporary file is nobody else's. -/
structure Fresh (call : Call) : Prop where
  absent : call.directory call.temporaryName = none
  others : ∀ n, ∀ e ∈ call.others n, e.1 ≠ call.temporaryName

/-- If the call returns a name, the file is new and stands there with the data, and every other
    entry is as it would be without the call; if it raises, all entries are. -/
def Atomic (call : Call) : Prop :=
  match call.run with
  | (.ok name, s) => call.directory name = none ∧ s.directory name = some (.file call.data) ∧
      ∀ n, n ≠ name → s.directory n = s.without n
  | (.raised _, s) => s.directory = s.without
  | (.halted, _) => False

end Call

/-- The steps whose failure leaves no trace. -/
def Harmless (failure : Option Step) : Prop :=
  ∀ place ∈ failure, place ∉ [.closeFile, .fsyncPublished, .unlink, .fsyncUnlinked, .unlinkAgain,
    .closeDirectory]

/-! ## The directory along the way -/

theorem create_update (d : Directory) (n : Name) (v : Node) (e : Name × Node) :
    Directory.create (update d n (some v)) e = update (d.create e) n (some v) := by
  funext m
  rw [Directory.create, Directory.create]
  by_cases he : m = e.1
  · subst he
    by_cases hn : e.1 = n
    · subst hn
      simp
    · simp [hn]
  · by_cases hn : m = n
    · subst hn
      simp [he]
    · simp [he, hn]

theorem foldl_create_update (l : List (Name × Node)) (d : Directory) (n : Name) (v : Node) :
    l.foldl Directory.create (update d n (some v)) =
      update (l.foldl Directory.create d) n (some v) := by
  induction l generalizing d with
  | nil => rfl
  | cons e l ih => rw [foldl_cons, create_update, ih, foldl_cons]

theorem foldl_create_of_some {l : List (Name × Node)} {d : Directory} {n : Name} {v : Node}
    (h : d n = some v) : l.foldl Directory.create d n = some v := by
  rw [← update_eq_self (f := d) n, h, foldl_create_update, update_self]

theorem foldl_create_of_ne {l : List (Name × Node)} {d : Directory} {n : Name}
    (h : ∀ e ∈ l, e.1 ≠ n) : l.foldl Directory.create d n = d n := by
  induction l generalizing d with
  | nil => rfl
  | cons e l ih =>
    rw [foldl_cons, ih fun e' he' => h e' (mem_cons_of_mem _ he'), Directory.create,
      update_of_ne (h e mem_cons_self).symm]

theorem unlink_staged {d : Directory} {n : Name} {v : Option Node} (h : d n = none) :
    update (update d n v) n none = d := by
  rw [update_idem, ← h, update_eq_self]

theorem unlink_linked {d : Directory} {n m : Name} {v w : Option Node} (hne : m ≠ n)
    (h : d n = none) : update (update (update d n v) m w) n none = update d m w := by
  rw [update_comm hne, unlink_staged h]

variable (call)

/-- What is there without the call: the entries from before, and not the temporary name. -/
structure Around (s : Machine) : Prop where
  fresh : s.without call.temporaryName = none
  grown : ∀ n v, call.directory n = some v → s.without n = some v

/-- Nothing was added. -/
structure Clean (s : Machine) : Prop extends Around call s where
  directory : s.directory = s.without

/-- Nothing was added, and the temporary file is not open. -/
structure Untouched (s : Machine) : Prop extends Clean call s where
  closed : s.temporaryFd = false

/-- The temporary file was added, with some data. -/
structure Staged (data : Bytes) (s : Machine) : Prop extends Around call s where
  directory : s.directory = update s.without call.temporaryName (some (.file data))

/-- The file was added under its new name too. -/
structure Linked (name : Name) (s : Machine) : Prop extends Around call s where
  absent : call.directory name = none
  ne : name ≠ call.temporaryName
  directory : s.directory =
    update (update s.without call.temporaryName (some (.file call.data))) name
      (some (.file call.data))

/-- Only the file was added. -/
structure Published (name : Name) (s : Machine) : Prop extends Around call s where
  absent : call.directory name = none
  directory : s.directory = update s.without name (some (.file call.data))

variable {data : Bytes} {name : Name}

variable {call}

theorem Around.meet (h : Around call s) (hfresh : call.Fresh) : Around call (call.meet s) where
  fresh := (foldl_create_of_ne (hfresh.others s.steps)).trans h.fresh
  grown n v hv := foldl_create_of_some (h.grown n v hv)

theorem Clean.meet (h : Clean call s) (hfresh : call.Fresh) : Clean call (call.meet s) :=
  ⟨h.toAround.meet hfresh, by rw [Call.meet, h.directory]⟩

theorem Untouched.meet (h : Untouched call s) (hfresh : call.Fresh) :
    Untouched call (call.meet s) :=
  ⟨h.toClean.meet hfresh, h.closed⟩

theorem Staged.meet (h : Staged call data s) (hfresh : call.Fresh) :
    Staged call data (call.meet s) :=
  ⟨h.toAround.meet hfresh, by
    show (call.others s.steps).foldl Directory.create s.directory = _
    rw [h.directory, foldl_create_update]
    rfl⟩

theorem Linked.meet (h : Linked call name s) (hfresh : call.Fresh) :
    Linked call name (call.meet s) :=
  ⟨h.toAround.meet hfresh, h.absent, h.ne, by
    show (call.others s.steps).foldl Directory.create s.directory = _
    rw [h.directory, foldl_create_update, foldl_create_update]
    rfl⟩

theorem Published.meet (h : Published call name s) (hfresh : call.Fresh) :
    Published call name (call.meet s) :=
  ⟨h.toAround.meet hfresh, h.absent, by
    show (call.others s.steps).foldl Directory.create s.directory = _
    rw [h.directory, foldl_create_update]
    rfl⟩

/-! ## The steps -/

theorem wp_step {place : Step} {act : Machine → Except Raised Machine} {Q : Unit → Machine → Prop}
    (hfail : call.failure = some place → E .osError (call.meet s))
    (hok : ∀ s', act (call.meet s) = .ok s' → Q () s')
    (herr : ∀ e, act (call.meet s) = .error e → E e (call.meet s)) :
    wp (call.step place act) Q E H s := by
  rw [wp, Call.step]
  split_ifs with h
  · exact hfail h
  · rcases hact : act (call.meet s) with e | s'
    · exact herr e hact
    · exact hok s' hact

theorem wp_idle {place : Step} {Q : Unit → Machine → Prop}
    (hfail : call.failure = some place → E .osError (call.meet s)) (hok : Q () (call.meet s)) :
    wp (call.idle place) Q E H s :=
  wp_step hfail (fun _ h => Except.ok.inj h ▸ hok) fun _ h => nomatch h

theorem wp_look {see : Directory → α} (h : ∀ a, Q a (call.meet s)) :
    wp (call.look see) Q E H s := h _

/-! ## The name -/

theorem wp_pathExists {Q : Bool → Machine → Prop} (h : ∀ b, Q b (call.meet s)) :
    wp (call.pathExists name) Q E H s := wp_look h

theorem wp_freeName (hfresh : call.Fresh) {base extension : Name} (fuel counter : ℕ)
    (h : Untouched call s) :
    wp (call.freeName base extension fuel counter) (fun _ => Untouched call)
      (fun _ => Untouched call) (fun _ => False) s := by
  induction fuel generalizing s counter with
  | zero => exact h
  | succ fuel ih =>
    rw [Call.freeName, wp_bind]
    refine wp_pathExists fun b => ?_
    rw [wp_ite]
    split_ifs
    · exact ih (counter + 1) (h.meet hfresh)
    · exact h.meet hfresh

/-- Choosing a name adds nothing. -/
theorem wp_safeFilename (hfresh : call.Fresh) (h : Untouched call s) :
    wp call.safeFilename (fun _ => Untouched call) (fun _ => Untouched call) (fun _ => False)
      s := by
  rw [Call.safeFilename]
  generalize basename (if (call.offered.map basename).getD [] = [] then call.received 0
    else (call.offered.map basename).getD []) = name
  rw [wp_bind, wp_bind]
  refine wp_pathExists fun b => ?_
  rw [wp_ite]
  have hwithin : ∀ {name : Name} {s : Machine}, Untouched call s →
      wp (do if ← call.isWithinSharedDir name then return name else return call.received 2)
        (fun _ => Untouched call) (fun _ => Untouched call) (fun _ => False) s := by
    intro name s h
    rw [wp_bind, Call.isWithinSharedDir, wp_ite]
    split_ifs
    · exact h
    · refine wp_look fun b => ?_
      rw [wp_ite]
      split_ifs
      all_goals exact h.meet hfresh
  split_ifs
  · exact wp_mono (wp_freeName hfresh 9999 1 (h.meet hfresh)) (fun _ _ h => hwithin h)
      (fun _ _ h => h) fun _ h => h
  · exact hwithin (h.meet hfresh)

/-! ## The file -/

/-- The descriptor is as the error path expects it: open, if it was not closed, and then the step
    that fails, if any, has been taken. -/
def Open (call : Call) (s : Machine) : Prop :=
  s.temporaryFd = true ∧ s.isOpen = true ∧ call.failure ≠ some .closeAgain

/-- What the error path finds. -/
def Undoable (call : Call) (s : Machine) : Prop :=
  (Clean call s ∨ ∃ data, Staged call data s) ∧ (s.temporaryFd = false ∨ Open call s)

theorem wp_openTemporary (hfresh : call.Fresh) (h : Untouched call s) :
    wp call.openTemporary (fun _ s => Staged call [] s ∧ s.temporaryFd = true ∧ s.isOpen = true)
      (fun _ => Undoable call) H s := by
  have hmeet := h.meet hfresh
  refine wp_step (fun _ => ⟨.inl hmeet.toClean, .inl h.closed⟩) (fun s' hs' => ?_) fun e he => ?_
  · split_ifs at hs'
    obtain rfl := Except.ok.inj hs'
    exact ⟨⟨⟨hmeet.fresh, hmeet.grown⟩, by rw [hmeet.directory]⟩, rfl, rfl⟩
  · rw [hmeet.directory, if_pos hmeet.fresh] at he
    cases he

/-- The data written so far grows by what a write takes, if it is not the step that fails. -/
theorem wp_append (hfresh : call.Fresh) {number : ℕ} {bytes : Bytes}
    (h : Staged call data s ∧ s.temporaryFd = true ∧ s.isOpen = true) :
    wp (call.append number bytes)
      (fun _ s => Staged call (data ++ bytes) s ∧ s.temporaryFd = true ∧ s.isOpen = true)
      (fun _ => Undoable call) H s := by
  have hmeet := h.1.meet hfresh
  have hfile : (call.meet s).directory call.temporaryName = some (.file data) := by
    rw [hmeet.directory, update_self]
  refine wp_step (fun hfail => ⟨.inr ⟨data, hmeet⟩, .inr ⟨h.2.1, h.2.2, ?_⟩⟩)
    (fun s' hs' => ?_) fun e he => ?_
  · rw [hfail]
    simp
  · rw [hfile] at hs'
    obtain rfl := Except.ok.inj hs'
    refine ⟨⟨⟨hmeet.fresh, hmeet.grown⟩, ?_⟩, h.2⟩
    rw [hmeet.directory, update_idem]
  · rw [hfile] at he
    cases he

theorem wp_writeAll (hfresh : call.Fresh) {fuel : ℕ} (number : ℕ) (view : Bytes)
    (hfuel : view.length ≤ fuel)
    (h : Staged call data s ∧ s.temporaryFd = true ∧ s.isOpen = true) :
    wp (call.writeAll fuel number view)
      (fun _ s => Staged call (data ++ view) s ∧ s.temporaryFd = true ∧ s.isOpen = true)
      (fun _ => Undoable call) H s := by
  induction fuel generalizing s number view data with
  | zero =>
    obtain rfl := length_eq_zero_iff.1 (Nat.le_zero.1 hfuel)
    rw [append_nil]
    exact h
  | succ fuel ih =>
    rw [Call.writeAll, wp_ite]
    split_ifs with hview
    · rw [hview, append_nil]
      exact h
    · rw [wp_bind]
      refine wp_mono (wp_append hfresh h) (fun _ s hs => ?_) (fun _ _ h => h) fun _ h => h
      have hlen := length_pos_iff.2 hview
      have := ih (number + 1) (view.drop (call.taken number + 1))
        (by rw [length_drop]; omega) hs
      rwa [append_assoc, take_append_drop] at this

theorem wp_close {place : Step} {Q : Unit → Machine → Prop}
    (hfail : call.failure ≠ some place) (hopen : s.isOpen = true)
    (h : Q () { call.meet s with isOpen := false }) : wp (call.close place) Q E H s := by
  rw [wp, Call.close, if_neg (by simp [hfail, hopen])]
  exact h

/-- The file gets the first of the candidates that is free, or none. -/
theorem wp_publish (hfresh : call.Fresh) {preferred : Name} {fuel counter : ℕ}
    (h : Staged call call.data s ∧ s.temporaryFd = false) :
    wp (call.publish preferred fuel counter)
      (fun name s => Linked call name s ∧ s.temporaryFd = false)
      (fun _ => Undoable call) H s := by
  induction fuel generalizing s counter with
  | zero => exact ⟨.inr ⟨_, h.1⟩, .inl h.2⟩
  | succ fuel ih =>
    rw [Call.publish]
    generalize (if counter = 0 then preferred
      else numbered (splitext preferred).1 (splitext preferred).2 counter) = candidate
    have hmeet := h.1.meet hfresh
    have hraise : ∀ e, wp (if e = Raised.fileExists then call.publish preferred fuel (counter + 1)
          else throw e) (fun name s => Linked call name s ∧ s.temporaryFd = false)
        (fun _ => Undoable call) H (call.meet s) := by
      intro e
      rw [wp_ite]
      split_ifs
      · exact ih ⟨hmeet, h.2⟩
      · exact ⟨.inr ⟨_, hmeet⟩, .inl h.2⟩
    rw [wp_tryCatch, wp_bind]
    refine wp_step (fun _ => hraise _) (fun s' hs' => ?_) fun e _ => hraise e
    split_ifs at hs' with _ hfree
    have hfree := not_not.1 hfree
    have hfile : (call.meet s).directory call.temporaryName = some (.file call.data) := by
      rw [hmeet.directory, update_self]
    rw [hfile] at hs'
    obtain rfl := Except.ok.inj hs'
    -- The name was free, so it is not the temporary one, and nobody had it before.
    have hne : candidate ≠ call.temporaryName := by
      rintro rfl
      rw [hfile] at hfree
      cases hfree
    rw [hmeet.directory, update_of_ne hne] at hfree
    refine ⟨⟨⟨hmeet.fresh, hmeet.grown⟩, ?_, hne, by rw [hmeet.directory]⟩, h.2⟩
    rcases habsent : call.directory candidate with _ | v
    · rfl
    · rw [hmeet.grown _ v habsent] at hfree
      cases hfree

/-! ## The whole -/

variable {preferred : Name}

theorem wp_body (hfresh : call.Fresh) (hharm : Harmless call.failure) (h : Untouched call s) :
    wp (call.body preferred) (fun name => Published call name) (fun _ => Undoable call) H s := by
  have hno : ∀ place ∈ [Step.closeFile, .fsyncPublished, .unlink, .fsyncUnlinked, .unlinkAgain,
      .closeDirectory], call.failure ≠ some place := fun place hmem hfail =>
    hharm place hfail hmem
  rw [Call.body, wp_bind]
  refine wp_mono (wp_openTemporary hfresh h) (fun _ s hs => ?_) (fun _ _ h => h) fun _ h => h
  rw [wp_bind]
  refine wp_mono (wp_writeAll hfresh 0 call.data (Nat.le_refl _) hs) (fun _ s hs => ?_)
    (fun _ _ h => h) fun _ h => h
  rw [nil_append] at hs
  rw [wp_bind]
  refine wp_idle (fun hfail => ⟨.inr ⟨_, hs.1.meet hfresh⟩, .inr ⟨hs.2.1, hs.2.2, ?_⟩⟩) ?_
  · rw [hfail]
    simp
  rw [wp_bind]
  refine wp_close (hno _ (by simp)) hs.2.2 ?_
  rw [wp_bind, wp_modify, wp_bind]
  have hstaged := (hs.1.meet hfresh).meet hfresh
  refine wp_mono (wp_publish hfresh ⟨⟨⟨hstaged.fresh, hstaged.grown⟩, hstaged.directory⟩, rfl⟩)
    (fun name s hs => ?_) (fun _ _ h => h) fun _ h => h
  rw [wp_bind]
  refine wp_idle (fun hfail => absurd hfail (hno _ (by simp))) ?_
  rw [wp_bind]
  have hlinked := (hs.1.meet hfresh).meet hfresh
  have htemporary : (call.meet (call.meet s)).directory call.temporaryName =
      some (.file call.data) := by
    rw [hlinked.directory, update_of_ne hlinked.ne.symm, update_self]
  refine wp_step (fun hfail => absurd hfail (hno _ (by simp))) (fun s' hs' => ?_) fun e he => ?_
  · rw [htemporary] at hs'
    obtain rfl := Except.ok.inj hs'
    -- Without the temporary name, there is only the file.
    have hpublished : Published call name { call.meet (call.meet s) with
        directory := update (call.meet (call.meet s)).directory call.temporaryName none } := by
      refine ⟨⟨hlinked.fresh, hlinked.grown⟩, hlinked.absent, ?_⟩
      dsimp only
      rw [hlinked.directory, unlink_linked hlinked.ne hlinked.fresh]
    rw [wp_bind]
    exact wp_idle (fun hfail => absurd hfail (hno _ (by simp))) (hpublished.meet hfresh)
  · rw [htemporary] at he
    cases he

/-- The error path removes the temporary file, if there is one. -/
theorem wp_cleanUp (hfresh : call.Fresh) (hharm : Harmless call.failure) (h : Undoable call s) :
    wp call.cleanUp (fun _ => Clean call) (fun _ => Clean call) H s := by
  have hunlink : ∀ s : Machine, (Clean call s ∨ ∃ data, Staged call data s) →
      wp (MonadExcept.tryCatch (do
          call.unlink .unlinkAgain
          call.idle .fsyncCleaned) fun e =>
            if e = .fileNotFound then pure () else throw e : M Unit)
        (fun _ => Clean call) (fun _ => Clean call) H s := by
    intro s h
    rw [wp_tryCatch, wp_bind]
    refine wp_step (fun hfail => absurd (hharm _ hfail) (by simp)) (fun s' hs' => ?_) fun e he => ?_
    · rcases h with h | ⟨data, h⟩
      · rw [(h.meet hfresh).directory, (h.meet hfresh).fresh] at hs'
        cases hs'
      · have hmeet := h.meet hfresh
        rw [hmeet.directory, update_self] at hs'
        have hclean : Clean call s' := by
          obtain rfl := Except.ok.inj hs'
          exact ⟨⟨hmeet.fresh, hmeet.grown⟩, unlink_staged hmeet.fresh⟩
        exact wp_idle (fun _ => hclean.meet hfresh) (hclean.meet hfresh)
    · rcases h with h | ⟨data, h⟩
      · rw [(h.meet hfresh).directory, (h.meet hfresh).fresh] at he
        obtain rfl := Except.error.inj he
        exact h.meet hfresh
      · rw [(h.meet hfresh).directory, update_self] at he
        cases he
  rw [Call.cleanUp, wp_bind, wp_get]
  dsimp only
  rw [wp_ite]
  split_ifs with hfd
  · rw [wp_bind]
    obtain ⟨-, hopen, hfail⟩ := h.2.resolve_left (by simp [hfd])
    refine wp_close hfail hopen (hunlink _ ?_)
    refine h.1.imp (fun h => ?_) fun ⟨data, h⟩ => ⟨data, ?_⟩
    all_goals exact ⟨⟨(h.meet hfresh).fresh, (h.meet hfresh).grown⟩, (h.meet hfresh).directory⟩
  · exact hunlink s h.1

/-- A call with a harmless failure, or none, is atomic. -/
theorem atomic_of_harmless (hfresh : call.Fresh) (hharm : Harmless call.failure) : call.Atomic := by
  have hstart : Untouched call { directory := call.directory, without := call.directory } :=
    ⟨⟨⟨hfresh.absent, fun _ _ h => h⟩, rfl⟩, rfl⟩
  have hwp : wp call.storeReceivedFile (fun name => Published call name) (fun _ => Clean call)
      (fun _ => False) { directory := call.directory, without := call.directory } := by
    rw [Call.storeReceivedFile, wp_bind]
    refine wp_mono (wp_safeFilename hfresh hstart) (fun preferred s hs => ?_)
      (fun _ _ h => h.toClean) fun _ h => h
    rw [wp_bind]
    refine wp_idle (fun _ => (hs.meet hfresh).toClean) ?_
    have hclose : call.failure ≠ some .closeDirectory := fun hfail =>
      absurd (hharm _ hfail) (by simp)
    rw [wp_tryFinally, wp_tryCatch]
    refine wp_mono (wp_body hfresh hharm (hs.meet hfresh)) (fun name s hs => ?_)
      (fun e s hs => ?_) fun _ h => h
    · exact wp_idle (fun hfail => absurd hfail hclose) (hs.meet hfresh)
    · rw [wp_bind]
      refine wp_mono (wp_cleanUp hfresh hharm hs) (fun _ s hs => ?_) (fun _ s hs => ?_)
        fun _ h => h
      all_goals exact wp_idle (fun hfail => absurd hfail hclose) (hs.meet hfresh)
  rw [Call.Atomic]
  rcases hrun : call.run with ⟨name | e | -, s⟩
  · have hs := wp_ok hwp hrun
    refine ⟨hs.absent, by rw [hs.directory, update_self], fun n hn => ?_⟩
    rw [hs.directory, update_of_ne hn]
  · exact (wp_raised hwp hrun).directory
  · exact wp_halted (H := fun _ => False) hwp hrun

/-! ## The other failures -/

/-- The call raises, and the name is not what it would be without the call. -/
def Call.leaves (call : Call) (name : Name) : Bool :=
  match call.run with
  | (.raised _, s) => s.directory name ≠ s.without name
  | _ => false

theorem Call.not_atomic_of_leaves (name : Name) (h : call.leaves name = true) : ¬ call.Atomic := by
  intro hatomic
  rw [Call.Atomic] at hatomic
  rw [Call.leaves] at h
  rcases hrun : call.run with ⟨_ | e | -, s⟩
  · rw [hrun] at h
    cases h
  · rw [hrun] at h hatomic
    simp only [ne_eq, decide_not, Bool.not_eq_true', decide_eq_false_iff_not] at h
    exact h (congrFun hatomic name)
  · rw [hrun] at h
    cases h

/-- A file `a` of one byte is offered to an empty directory. -/
def offer (failure : Option Step) : Call where
  directory := fun _ => none
  offered := some ['a']
  data := [1]
  received := fun _ => ['r']
  temporaryName := ['t']
  failure := failure

theorem offer_fresh (failure : Option Step) : (offer failure).Fresh :=
  ⟨rfl, fun _ _ he => nomatch he⟩

/-- A file with a name that the file system does not take. -/
def offerTooLong : Call := { offer (some .unlinkAgain) with accepts := fun _ => false }

/-- Whatever the directory holds and whatever is offered, a call is atomic in spite of a failing
    step, if and only if that step is harmless. -/
theorem atomic_iff (failure : Option Step) :
    (∀ call : Call, call.failure = failure → call.Fresh → call.Atomic) ↔ Harmless failure := by
  constructor
  · intro h place hplace hmem
    obtain rfl := hplace
    have hoffer : ∀ name, (offer (some place)).leaves name ≠ true := fun name hleaves =>
      Call.not_atomic_of_leaves name hleaves (h _ rfl (offer_fresh _))
    fin_cases hmem
    · exact hoffer ['t'] (by decide +kernel)
    · exact hoffer ['a'] (by decide +kernel)
    · exact hoffer ['a'] (by decide +kernel)
    · exact hoffer ['a'] (by decide +kernel)
    · have hleaves : offerTooLong.leaves ['t'] = true := by decide +kernel
      exact Call.not_atomic_of_leaves _ hleaves (h _ rfl ⟨rfl, fun _ _ he => nomatch he⟩)
    · exact hoffer ['a'] (by decide +kernel)
  · rintro hharm call rfl hfresh
    exact atomic_of_harmless hfresh hharm

/-- The directory fails to be synced after the file was published: the call raises, and the file
    stays. -/
theorem offer_leaves_published :
    (offer (some .fsyncPublished)).Fresh ∧ ¬ (offer (some .fsyncPublished)).Atomic :=
  ⟨offer_fresh _, Call.not_atomic_of_leaves ['a'] (by decide +kernel)⟩

end ReticulumPi.FileTransfer
