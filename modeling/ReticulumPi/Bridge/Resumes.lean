import ReticulumPi.Bridge.Switch

/-!
# A restart resumes what the bridge was doing

The flag in memory and the file agree whenever no snapshot is on its way to the
file, in the runs in which no call changes the flag while another call's
snapshot is (`restart_resumes`): then one call at most persists, and what it
persists is the flag (`Sound`). Without that condition two snapshots may reach
the file in the opposite order (`restart_forgets`).
-/

namespace ReticulumPi.Bridge

open PyJson PyCodec List

variable (isZero : Number → Bool) (defaultRunning : Bool)

/-! ## What is read back -/

theorem decodeFile_ascii {s : Text} (hs : Printable s) : decodeFile (ascii s) = some s := by
  have hall : (s.all fun c => !(IsHigh c.val || IsLow c.val)) = true := by
    rw [List.all_eq_true]
    intro c hc
    have hc := hs c hc
    have hhigh : ¬IsHigh c.val := fun h => by have := h.1; omega
    have hlow : ¬IsLow c.val := fun h => by have := h.1; omega
    simp [hhigh, hlow]
  rw [decodeFile, decode8_ascii hs, Option.filter_some, if_pos hall]

/-- The flag of a snapshot is read back from a file with the snapshot. -/
theorem loadState_value (state : RunState) :
    (loadState isZero defaultRunning (some (ascii (state.value.dumps spaced)))).map (·.running) =
      .ok state.running := by
  rw [loadState, Option.bind_some, decodeFile_ascii (printable_dumps printable_spaced _),
    Option.bind_some, loads_dumps]
  rfl

/-! ## The disk -/

namespace Disk

variable (d : Disk)

theorem openTmp_tmp : d.openTmp.1.tmp = some d.openTmp.2 := by
  rw [openTmp]
  split
  case h_1 inode h => exact h
  case h_2 => rfl

/-- The file that is opened is empty. -/
theorem openTmp_content : d.openTmp.1.content d.openTmp.2 = [] := by
  rw [openTmp]
  split <;> rw [content, lookup_cons_self, Option.getD_some]

/-- What is written to an empty file is what it holds. -/
theorem write_content {inode : ℕ} (h : d.content inode = []) (b : List Byte) :
    (d.write inode b).content inode = b := by
  rw [write, content, lookup_cons_self, Option.getD_some, h, drop_nil, append_nil]

end Disk

/-! ## The invariant -/

namespace System

/-- After a restart the bridge would do what it does. -/
def Resumes (s : System) : Prop :=
  (loadState isZero defaultRunning s.disk.read).map (·.running) = .ok s.bridge.state.running

/-- What a call that persists is about to write, or has written, is the flag; it alone has opened
    the temporary file. -/
def Stage (s : System) : Pc → Prop
  | .persist state => state.running = s.bridge.state.running
  | .write state inode => state.running = s.bridge.state.running ∧ s.disk.tmp = some inode ∧
      s.disk.content inode = []
  | .replace => ∃ state : RunState, state.running = s.bridge.state.running ∧
      ∃ inode, s.disk.tmp = some inode ∧
        s.disk.content inode = ascii (state.value.dumps spaced)
  | .unlink => False
  | .check _ | .enter _ _ | .finished => True

/-- No call but the one with the number `i` persists. -/
def Alone (s : System) (i : ℕ) : Prop :=
  ∀ (j : ℕ) (pc : Pc), s.threads[j]? = some pc → pc.isPersisting = true → j = i

structure Sound (s : System) : Prop where
  alone : ∀ (i : ℕ) (pc : Pc), s.threads[i]? = some pc → pc.isPersisting = true → s.Alone i
  stage : ∀ (i : ℕ) (pc : Pc), s.threads[i]? = some pc → s.Stage pc
  resumes : (∀ (i : ℕ) (pc : Pc), s.threads[i]? = some pc → pc.isPersisting = false) →
    s.Resumes isZero defaultRunning

variable {isZero defaultRunning} {s s' : System} {i : ℕ} {pc pc' : Pc}

theorem stage_of_not_persisting (h : pc.isPersisting = false) : s.Stage pc := by
  cases pc <;> trivial

theorem stage_congr (hflag : s'.bridge.state.running = s.bridge.state.running)
    (hdisk : s'.disk = s.disk) : s'.Stage pc ↔ s.Stage pc := by
  cases pc <;> simp only [Stage, hflag, hdisk]

/-- A step after which the same calls persist, and that changes neither the flag nor the disk. -/
theorem Sound.quiet (h : s.Sound isZero defaultRunning)
    (hflag : s'.bridge.state.running = s.bridge.state.running) (hdisk : s'.disk = s.disk)
    (hthreads : ∀ (j : ℕ) (pc : Pc), pc.isPersisting = true →
      (s'.threads[j]? = some pc ↔ s.threads[j]? = some pc)) :
    s'.Sound isZero defaultRunning where
  alone i pc hi hp j pc' hj hp' :=
    h.alone i pc ((hthreads i pc hp).1 hi) hp j pc' ((hthreads j pc' hp').1 hj) hp'
  stage i pc hi := by
    cases hp : pc.isPersisting with
    | false => exact stage_of_not_persisting hp
    | true =>
      exact (stage_congr hflag hdisk).2 (h.stage i pc ((hthreads i pc hp).1 hi))
  resumes hs' := by
    rw [Resumes, hflag, hdisk]
    refine h.resumes fun i pc hi => Bool.eq_false_iff.2 fun hp => ?_
    exact Bool.eq_false_iff.1 (hs' i pc ((hthreads i pc hp).2 hi)) hp

/-- The only call that persists goes on to persist. -/
theorem Sound.persists (halone : s.Alone i) (hthreads : s'.threads = s.threads.set i pc')
    (hstage : s'.Stage pc') (hi : s.threads[i]? = some pc) (hp : pc'.isPersisting = true) :
    s'.Sound isZero defaultRunning := by
  have halone' : s'.Alone i := by
    intro j pc₁ hj hp₁
    rw [hthreads, getElem?_set] at hj
    split_ifs at hj with hij
    · exact hij.symm
    · exact halone j pc₁ hj hp₁
  have hlt : i < s.threads.length := (List.getElem?_eq_some_iff.1 hi).1
  have hself : s'.threads[i]? = some pc' := by rw [hthreads, getElem?_set_self hlt]
  refine ⟨fun j pc₁ hj hp₁ => ?_, fun j pc₁ hj => ?_, fun hs' => ?_⟩
  · rwa [halone' j pc₁ hj hp₁]
  · cases hp₁ : pc₁.isPersisting with
    | false => exact stage_of_not_persisting hp₁
    | true =>
      obtain rfl := halone' j pc₁ hj hp₁
      rw [hself, Option.some.injEq] at hj
      exact hj ▸ hstage
  · exact absurd (hs' i pc' hself) (by simp [hp])

/-- The only call that persists is done with it. -/
theorem Sound.settles (halone : s.Alone i) (hthreads : s'.threads = s.threads.set i pc')
    (hp : pc'.isPersisting = false) (hs' : s'.Resumes isZero defaultRunning) :
    s'.Sound isZero defaultRunning := by
  have hnone : ∀ (j : ℕ) (pc₁ : Pc), s'.threads[j]? = some pc₁ → pc₁.isPersisting = false := by
    intro j pc₁ hj
    rw [hthreads, getElem?_set] at hj
    split_ifs at hj with hij
    · cases hj
      exact hp
    · exact Bool.eq_false_iff.2 fun hp₁ => hij (halone j pc₁ hj hp₁).symm
  refine ⟨fun j pc₁ hj hp₁ => ?_, fun j pc₁ hj => ?_, fun _ => hs'⟩
  · rw [hnone j pc₁ hj] at hp₁
    cases hp₁
  · exact stage_of_not_persisting (hnone j pc₁ hj)

/-! ## The steps -/

/-- No call changes the flag while the snapshot of another has yet to reach the file. -/
def Orderly (s : System) : Event → Prop
  | .step i _ =>
    match s.threads[i]? with
    | some (.enter running _) => running = s.bridge.state.running ∨
        (s.threads.all fun pc => !pc.isPersisting) = true
    | _ => True
  | .set _ _ | .relayed _ => True

instance (s : System) : (e : Event) → Decidable (s.Orderly e)
  | .step i _ => by
    rw [Orderly]
    split <;> infer_instance
  | .set _ _ => inferInstanceAs (Decidable True)
  | .relayed _ => inferInstanceAs (Decidable True)

theorem setRunning_running (bridge : Bridge) (running : Bool) (reason : Option Text)
    (time : Number) : (bridge.setRunning running reason time).state.running = running := by
  rw [Bridge.setRunning.eq_def]
  split
  case isTrue h => exact h.symm
  case isFalse h =>
    rw [Bool.not_eq_true] at h
    split <;> exact h.symm

/-- A call that begins does not persist yet. -/
theorem Sound.call (h : s.Sound isZero defaultRunning) (hp : pc.isPersisting = false) :
    Sound isZero defaultRunning { s with threads := s.threads ++ [pc] } := by
  refine h.quiet rfl rfl fun j pc₁ hp₁ => ?_
  rw [getElem?_append]
  split_ifs with hj
  · rfl
  · rw [getElem?_eq_none (Nat.not_lt.1 hj)]
    constructor
    · intro heq
      rw [getElem?_singleton] at heq
      split_ifs at heq
      rw [← Option.some.inj heq, hp] at hp₁
      cases hp₁
    · intro heq
      cases heq

/-- A call goes on that persists neither before nor after. -/
theorem Sound.goes_on (h : s.Sound isZero defaultRunning) {bridge : Bridge}
    (hflag : bridge.state.running = s.bridge.state.running) (hi : s.threads[i]? = some pc)
    (hp : pc.isPersisting = false) (hp' : pc'.isPersisting = false) :
    (goto { s with bridge := bridge } i pc').Sound isZero defaultRunning := by
  refine h.quiet hflag rfl fun j pc₁ hp₁ => ?_
  have hlt : i < s.threads.length := (List.getElem?_eq_some_iff.1 hi).1
  by_cases hij : i = j
  · subst hij
    rw [goto, getElem?_set_self hlt, hi, Option.some.injEq, Option.some.injEq]
    constructor
    · rintro rfl
      rw [hp'] at hp₁
      cases hp₁
    · rintro rfl
      rw [hp] at hp₁
      cases hp₁
  · rw [goto, getElem?_set_ne hij]

theorem countRelay_running (bridge : Bridge) (now : ℚ) :
    (bridge.countRelay now).state.running = bridge.state.running := by
  rw [Bridge.countRelay]

variable {autoPauseThreshold : ℤ}

/-- A relay that is counted persists nothing, though the call may pause the bridge next. -/
theorem advance_check {time : Number} {now : ℚ}
    (hs : s.advance autoPauseThreshold i time (.check now) = some s') :
    s' = s.goto i .finished ∨ ∃ pc : Pc, pc.isPersisting = false ∧
      s' = goto { s with bridge := s.bridge.countRelay now } i pc := by
  rw [System.advance] at hs
  by_cases hoff : autoPauseThreshold ≤ 0
  · rw [if_pos hoff, Option.some.injEq] at hs
    exact .inl hs.symm
  · rw [if_neg hoff] at hs
    refine .inr ⟨_, ?_, (Option.some.inj hs).symm⟩
    split_ifs <;> rfl

/-- The step of a call. -/
theorem Sound.advance {time : Number} (h : s.Sound isZero defaultRunning)
    (hi : s.threads[i]? = some pc) (hok : s.Orderly (.step i time))
    (hs : s.advance autoPauseThreshold i time pc = some s') : s'.Sound isZero defaultRunning := by
  have hstage := h.stage i pc hi
  cases pc with
  | check now =>
    rcases advance_check hs with rfl | ⟨pc', hp', rfl⟩
    · exact h.goes_on rfl hi rfl rfl
    · exact h.goes_on (countRelay_running s.bridge now) hi rfl hp'
  | enter running reason =>
    cases hs
    have hflag := setRunning_running s.bridge running reason time
    rw [Orderly, hi] at hok
    split_ifs with hsame
    · exact h.goes_on (hflag.trans hsame.symm) hi rfl rfl
    · -- The flag changes, so no call persists.
      have hnone := (List.all_eq_true.1 (hok.resolve_left fun heq => hsame heq.symm))
      refine .persists (fun j pc hj hp => ?_) rfl rfl hi rfl
      have hpc := hnone pc (mem_of_getElem? hj)
      rw [hp] at hpc
      cases hpc
  | persist state =>
    cases hs
    refine .persists (h.alone i _ hi rfl) rfl ?_ hi rfl
    exact ⟨hstage, s.disk.openTmp_tmp, s.disk.openTmp_content⟩
  | write state inode =>
    obtain ⟨hflag, htmp, hempty⟩ := hstage
    have hencode := encode_printable (printable_dumps printable_spaced state.value)
    rw [System.advance, hencode] at hs
    cases hs
    refine .persists (h.alone i _ hi rfl) rfl ?_ hi rfl
    exact ⟨state, hflag, inode, htmp, s.disk.write_content hempty _⟩
  | replace =>
    obtain ⟨state, hflag, inode, htmp, hcontent⟩ := hstage
    rw [System.advance, Disk.replace, htmp] at hs
    cases hs
    refine .settles (h.alone i _ hi rfl) rfl rfl ?_
    have hload := loadState_value isZero defaultRunning state
    rw [← hcontent, hflag] at hload
    exact hload
  | unlink => exact hstage.elim
  | finished => cases hs

/-- A step under the condition. -/
theorem Sound.next {e : Event} (h : s.Sound isZero defaultRunning)
    (hok : s.Orderly e) (hs : s.next autoPauseThreshold e = some s') :
    s'.Sound isZero defaultRunning := by
  cases e with
  | set running reason | relayed now =>
    cases hs
    exact h.call rfl
  | step i time =>
    rw [System.next] at hs
    cases hi : s.threads[i]? with
    | none =>
      rw [hi] at hs
      cases hs
    | some pc =>
      rw [hi] at hs
      exact h.advance hi hok hs

/-- After a start no call is under way, and the bridge goes by the file. -/
theorem Sound.start {disk : Disk} (h : System.start isZero defaultRunning disk = .ok s) :
    s.Sound isZero defaultRunning := by
  rw [System.start] at h
  cases hload : loadState isZero defaultRunning disk.read with
  | error e =>
    rw [hload] at h
    cases h
  | ok state =>
    rw [hload] at h
    obtain rfl := Except.ok.inj h
    refine ⟨fun i pc hi => ?_, fun i pc hi => ?_, fun _ => congrArg _ hload⟩
    all_goals
      rw [getElem?_nil] at hi
      cases hi

end System

/-- When all calls have finished, a restart resumes in the state of the flag in memory. -/
theorem restart_resumes {autoPauseThreshold : ℤ} {s : System}
    (h : (system isZero defaultRunning autoPauseThreshold).Reach System.Orderly s)
    (hdone : ∀ pc ∈ s.threads, pc.isFinished = true) : s.Resumes isZero defaultRunning := by
  have hsound : s.Sound isZero defaultRunning := by
    refine Transition.Reach.induction (fun s hs => ?_) (fun s e s' hs hok hstep => ?_) h
    · obtain ⟨disk, hs⟩ := hs
      exact System.Sound.start hs
    · exact hs.next hok hstep
  refine hsound.resumes fun i pc hi => ?_
  have hpc := hdone pc (mem_of_getElem? hi)
  cases pc <;> first | rfl | cases hpc

/-! ## Two calls -/

/-- No number that Python writes is taken as zero. -/
def neverZero : Number → Bool := fun _ => false

/-- A start without a file, by default running. -/
def freshBridge : System := ⟨⟨⟨true, .null, .null⟩, []⟩, ⟨none, none, [], 0⟩, []⟩

theorem start_freshBridge : System.start neverZero true ⟨none, none, [], 0⟩ = .ok freshBridge := rfl

/-- The time of the calls. -/
def someTime : Number := ⟨text "1.5", by decide⟩

/-- Whether all calls have finished, the flag, and the flag after a restart. -/
def System.observed (s : System) : Bool × Bool × Option Bool :=
  (s.threads.all Pc.isFinished, s.bridge.state.running,
    ((loadState neverZero true s.disk.read).toOption).map (·.running))

theorem System.observed_eq {s : System} {b b' : Bool} (h : s.observed = (true, b, some b')) :
    (∀ pc ∈ s.threads, pc.isFinished = true) ∧ (s.Resumes neverZero true ↔ b' = b) := by
  rw [observed, Prod.mk.injEq, Prod.mk.injEq] at h
  obtain ⟨hall, hflag, hload⟩ := h
  refine ⟨List.all_eq_true.1 hall, ?_⟩
  rw [Resumes, hflag]
  cases hs : loadState neverZero true s.disk.read with
  | error e =>
    rw [hs] at hload
    cases hload
  | ok state =>
    rw [hs] at hload
    have heq : state.running = b' := Option.some.inj hload
    change Except.ok state.running = Except.ok b ↔ b' = b
    rw [Except.ok.injEq, heq]

/-- The bridge is paused, and then resumed. -/
def pauseThenResume : List Event :=
  .set false none :: .replicate 4 (.step 0 someTime) ++
    .set true none :: .replicate 4 (.step 1 someTime)

/-- After both calls a restart resumes. -/
theorem restart_resumes_paused : ∃ s, (system neverZero true 60).Reach System.Orderly s ∧
    s.Resumes neverZero true := by
  obtain ⟨s, hs, hobs⟩ :
      ∃ s ∈ pauseThenResume.foldlM (fun (s : System) e => if s.Orderly e then s.next 60 e else none)
        freshBridge, s.observed = (true, true, some true) := by
    decide +kernel
  have hreach : (system neverZero true 60).Reach System.Orderly s :=
    Transition.Reach.foldlM (.init ⟨_, start_freshBridge⟩) hs
  have hdone := (System.observed_eq hobs).1
  exact ⟨s, hreach, restart_resumes neverZero true hreach hdone⟩

/-- The bridge is resumed while the snapshot of the pause is on its way to the file. -/
def pauseOvertaken : List Event :=
  [.set false none, .set true none, .step 0 someTime] ++ .replicate 4 (.step 1 someTime) ++
    .replicate 3 (.step 0 someTime)

/-- Both calls have finished and the bridge runs, but after a restart it is paused. -/
theorem restart_forgets : ∃ s, (system neverZero true 60).Reachable s ∧
    (∀ pc ∈ s.threads, pc.isFinished = true) ∧ ¬s.Resumes neverZero true := by
  obtain ⟨s, hs, hobs⟩ : ∃ s ∈ pauseOvertaken.foldlM (System.next 60) freshBridge,
      s.observed = (true, true, some false) := by
    decide +kernel
  obtain ⟨hdone, hiff⟩ := System.observed_eq hobs
  refine ⟨s, Transition.Reachable.foldlM (.init ⟨_, start_freshBridge⟩) hs, hdone, fun h => ?_⟩
  cases hiff.1 h

end ReticulumPi.Bridge
