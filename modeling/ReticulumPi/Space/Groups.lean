import Mathlib.Tactic.Linarith
import ReticulumPi.Lib.Dict
import ReticulumPi.Space.RequestSpacing

/-!
# The groups of satellites

The orbits are fetched in groups, by one thread and through one limiter. Once a
minute `_refresh_due_groups` goes through the groups, in the order of the
configuration, and requests those that are due. The least time between two
requests is no less than that after which a group is due again, so that mostly
one group is fetched for each such time: the first one that is due when the
limiter opens.

A step is a check, a group that is looked at, a request, or its answer; the
clock does not go back, and an answer takes time. All requests succeed. That a
check finds no internet, and that the tracker is stopped, only cuts a run short.
-/

namespace ReticulumPi.Space

open List

/-! ## The loop -/

/-- The configuration; `tle_refresh_hours` is at least six. -/
structure GroupConfig where
  groups : List String := ["stations"]
  tleRefresh : ℚ := 24 * 3600
  refresh_min : 6 * 3600 ≤ tleRefresh

/-- The settings of the limiter of all groups. -/
def GroupConfig.limiter (config : GroupConfig) : LimiterSettings :=
  Config.limiter { tleRefresh := config.tleRefresh } .celestrak

/-- Where the loop is: `now` is the time at which the check began, `rest` what it
    has not looked at yet. -/
inductive LoopPc where
  | idle
  | scanning (now : ℚ) (rest : List String)
  /-- The loop has found the group due and a request allowed. -/
  | ready (now : ℚ) (group : String) (rest : List String)
  /-- The request has been sent. -/
  | waiting (now : ℚ) (group : String) (rest : List String)
deriving DecidableEq

/-- A request, and the times of the last fetches before it. -/
structure Fetch where
  group : String
  time : ℚ
  lastFetch : Dict String ℚ

/-- The state of the loop, with the requests that were made, oldest first. -/
structure FetchLoop where
  clock : ℚ
  lastFetch : Dict String ℚ
  limiter : Limiter
  pc : LoopPc := .idle
  log : List Fetch := []

inductive FetchEvent where
  /-- `_refresh_due_groups` is called. -/
  | check (now : ℚ)
  /-- The loop looks at the next group, and asks the limiter. -/
  | look (trim now : ℚ)
  /-- `get` asks the limiter again, notes the attempt and sends the request. -/
  | send (trim now attempt : ℚ)
  /-- The answer is noted by the limiter, and then as a fetch. -/
  | answer (success now : ℚ)
  /-- `on_internet_available` -/
  | restored

/-- `_tle_last_fetch.get(group, 0.0)` -/
def lastFetchOf (lastFetch : Dict String ℚ) (group : String) : ℚ :=
  (lastFetch.get? group).getD 0

namespace FetchLoop

variable (config : GroupConfig) (s : FetchLoop)

/-- The loop looks at `group`. -/
def lookAt (now : ℚ) (group : String) (rest : List String) (trim clock : ℚ) : FetchLoop :=
  if now - lastFetchOf s.lastFetch group < config.tleRefresh then
    { s with pc := .scanning now rest }
  else
    let (limiter, allowed) := s.limiter.canRequest config.limiter trim clock
    { s with
      clock := clock, limiter := limiter
      pc := if allowed then .ready now group rest else .scanning now rest }

/-- `get` for `group`, up to the request. -/
def sendFor (now : ℚ) (group : String) (rest : List String) (trim clock attempt : ℚ) : FetchLoop :=
  let (limiter, allowed) := s.limiter.canRequest config.limiter trim clock
  if allowed then
    { s with
      clock := attempt, limiter := limiter.recordAttempt attempt, pc := .waiting now group rest
      log := s.log ++ [⟨group, attempt, s.lastFetch⟩] }
  else { s with clock := clock, limiter := limiter, pc := .scanning now rest }

/-- A step of the loop, `none` where it cannot happen. -/
def next (s : FetchLoop) : FetchEvent → Option FetchLoop
  | .check now =>
    match s.pc with
    | .idle =>
      if s.clock ≤ now then some { s with clock := now, pc := .scanning now config.groups }
      else none
    | _ => none
  | .look trim now =>
    match s.pc with
    | .scanning began (group :: rest) =>
      if s.clock ≤ trim ∧ trim ≤ now then some (s.lookAt config began group rest trim now)
      else none
    | .scanning _ [] => some { s with pc := .idle }
    | _ => none
  | .send trim now attempt =>
    match s.pc with
    | .ready began group rest =>
      if s.clock ≤ trim ∧ trim ≤ now ∧ now ≤ attempt then
        some (s.sendFor config began group rest trim now attempt)
      else none
    | _ => none
  | .answer success now =>
    match s.pc with
    | .waiting began group rest =>
      if s.clock < success ∧ success ≤ now then
        some { s with
          clock := now, lastFetch := s.lastFetch.set group now
          limiter := s.limiter.recordSuccess success, pc := .scanning began rest }
      else none
    | _ => none
  | .restored => some { s with limiter := { s.limiter with failures := 0 } }

/-- A loop that starts, with any cached files and any state of the limiter. -/
def IsInitial (s : FetchLoop) : Prop := s.pc = .idle ∧ s.log = []

end FetchLoop

variable (config : GroupConfig)

/-- The runs of the loop. -/
abbrev GroupConfig.system : Transition FetchLoop FetchEvent :=
  Transition.ofNext FetchLoop.IsInitial (FetchLoop.next config)

/-- When a group is due again, as of the request `f`. -/
def Fetch.dueAt (f : Fetch) (group : String) : ℚ :=
  lastFetchOf f.lastFetch group + config.tleRefresh

/-- No group is requested a second time while another one, which has been due
    since before the first of the two requests, has not been. -/
def Unstarved (log : List Fetch) : Prop :=
  ∀ earlier f between f' later, log = earlier ++ f :: between ++ f' :: later →
    f.group = f'.group → ∀ group ∈ config.groups, group ≠ f.group →
      (∀ g ∈ between, g.group ≠ group) → ¬ f.dueAt config group < f.time

/-! ## When the oldest group comes first -/

/-- A request is made for the group that was last fetched longest ago, of those
    that are due. -/
def OldestFirst (s : FetchLoop) : FetchEvent → Prop
  | .send _ _ _ => ∀ now group rest, s.pc = .ready now group rest → ∀ other ∈ config.groups,
      config.tleRefresh ≤ now - lastFetchOf s.lastFetch other →
        lastFetchOf s.lastFetch group ≤ lastFetchOf s.lastFetch other
  | _ => True

theorem lastFetchOf_set (lastFetch : Dict String ℚ) (group other : String) (now : ℚ) :
    lastFetchOf (lastFetch.set group now) other =
      if other = group then now else lastFetchOf lastFetch other := by
  rw [lastFetchOf, Dict.get?_set]
  split_ifs <;> rfl

/-- An element of a list that got longer. -/
theorem append_cons_eq_concat {α : Type*} {l earlier later : List α} {x y : α} :
    l ++ [y] = earlier ++ x :: later ↔
      (later = [] ∧ x = y ∧ earlier = l) ∨
        ∃ later', later = later' ++ [y] ∧ l = earlier ++ x :: later' := by
  constructor
  · intro h
    rcases eq_nil_or_concat later with rfl | ⟨later', z, rfl⟩
    · obtain ⟨rfl, hx⟩ := append_inj' h rfl
      exact .inl ⟨rfl, (List.cons.inj hx).1.symm, rfl⟩
    · rw [concat_eq_append, ← cons_append, ← append_assoc] at h
      obtain ⟨rfl, hz⟩ := append_inj' h rfl
      exact .inr ⟨later', by rw [concat_eq_append, (List.cons.inj hz).1], rfl⟩
  · rintro (⟨rfl, rfl, rfl⟩ | ⟨later', rfl, rfl⟩) <;> simp

/-- The invariant of the runs in which the oldest group comes first. -/
structure InTurn (s : FetchLoop) : Prop where
  unstarved : Unstarved config s.log
  times : ∀ f ∈ s.log, f.time ≤ s.clock
  /-- A request has been answered, or is the last one and waits for the answer. -/
  answered : ∀ earlier f later, s.log = earlier ++ f :: later →
    f.time < lastFetchOf s.lastFetch f.group ∨ ∃ now rest, s.pc = .waiting now f.group rest
  /-- What was not requested since has not been fetched. -/
  unchanged : ∀ earlier f later, s.log = earlier ++ f :: later → ∀ group, group ≠ f.group →
    (∀ g ∈ later, g.group ≠ group) →
      lastFetchOf s.lastFetch group = lastFetchOf f.lastFetch group
  due : ∀ now group rest, s.pc = .ready now group rest →
    config.tleRefresh ≤ now - lastFetchOf s.lastFetch group
  waiting : ∀ now group rest, s.pc = .waiting now group rest →
    ∃ earlier f, s.log = earlier ++ [f] ∧ f.group = group

section Steps

variable {config : GroupConfig} {s s' : FetchLoop} {group : String} {rest : List String}
  {now trim clock attempt : ℚ}

/-- A step that makes no request and fetches nothing. -/
theorem InTurn.quiet (h : InTurn config s) (hlog : s'.log = s.log)
    (hfetch : s'.lastFetch = s.lastFetch) (hclock : s.clock ≤ s'.clock)
    (hpc : ∀ now group rest, s'.pc ≠ .waiting now group rest)
    (hold : ∀ now group rest, s.pc ≠ .waiting now group rest)
    (hdue : ∀ now group rest, s'.pc = .ready now group rest →
      config.tleRefresh ≤ now - lastFetchOf s.lastFetch group) : InTurn config s' where
  unstarved := by
    rw [hlog]
    exact h.unstarved
  times := by
    rw [hlog]
    exact fun f hf => (h.times f hf).trans hclock
  answered := by
    intro earlier f later hl
    rw [hlog] at hl
    rw [hfetch]
    exact .inl ((h.answered earlier f later hl).resolve_right fun ⟨_, _, hw⟩ => hold _ _ _ hw)
  unchanged := by
    rw [hlog, hfetch]
    exact h.unchanged
  due := by
    rw [hfetch]
    exact hdue
  waiting := fun now group rest hw => absurd hw (hpc now group rest)

/-- A request for the group that waits longest. -/
theorem InTurn.request (h : InTurn config s) (hpc : s.pc = .ready now group rest)
    (holdest : ∀ other ∈ config.groups,
      config.tleRefresh ≤ now - lastFetchOf s.lastFetch other →
        lastFetchOf s.lastFetch group ≤ lastFetchOf s.lastFetch other)
    (hclock : s.clock ≤ s'.clock) (hlog : s'.log = s.log ++ [⟨group, s'.clock, s.lastFetch⟩])
    (hfetch : s'.lastFetch = s.lastFetch) (hpc' : s'.pc = .waiting now group rest) :
    InTurn config s' := by
  have hanswered : ∀ earlier f later, s.log = earlier ++ f :: later →
      f.time < lastFetchOf s.lastFetch f.group := by
    intro earlier f later hl
    refine (h.answered earlier f later hl).resolve_right fun ⟨_, _, hw⟩ => ?_
    rw [hpc] at hw
    cases hw
  refine ⟨?_, fun f hf => ?_, fun earlier f later hl => ?_, fun earlier f later hl => ?_,
    fun _ _ _ hr => ?_, fun _ _ _ hw => ?_⟩
  · intro earlier f between f' later hl hgroup other hother hne hnone
    rw [hlog] at hl
    rcases append_cons_eq_concat.1 hl with ⟨rfl, rfl, hl'⟩ | ⟨later', rfl, hl'⟩
    · -- The new request is the second one.
      intro hdue
      have hf := hanswered _ _ _ hl'.symm
      have hsame := h.unchanged _ _ _ hl'.symm other hne hnone
      have hready := h.due _ _ _ hpc
      dsimp only at hgroup
      rw [Fetch.dueAt, ← hsame] at hdue
      rw [hgroup] at hf
      have hmin := config.refresh_min
      have hle := holdest other hother (by linarith)
      linarith
    · exact h.unstarved earlier f between f' later' hl' hgroup other hother hne hnone
  · rw [hlog, mem_append, mem_singleton] at hf
    rcases hf with hf | rfl
    · exact (h.times f hf).trans hclock
    · exact le_rfl
  · rw [hlog] at hl
    rcases append_cons_eq_concat.1 hl with ⟨rfl, rfl, rfl⟩ | ⟨later', rfl, hl'⟩
    · exact .inr ⟨now, rest, hpc'⟩
    · rw [hfetch]
      exact .inl (hanswered earlier f later' hl')
  · intro other hne hnone
    rw [hlog] at hl
    rw [hfetch]
    rcases append_cons_eq_concat.1 hl with ⟨rfl, rfl, rfl⟩ | ⟨later', rfl, hl'⟩
    · rfl
    · exact h.unchanged earlier f later' hl' other hne fun g hg =>
        hnone g (mem_append_left _ hg)
  · rw [hpc'] at hr
    cases hr
  · rw [hpc'] at hw
    cases hw
    exact ⟨s.log, _, hlog, rfl⟩

/-- The answer to the last request. -/
theorem InTurn.answer (h : InTurn config s) (hpc : s.pc = .waiting now group rest)
    (hclock : s.clock < clock) (hlog : s'.log = s.log)
    (hfetch : s'.lastFetch = s.lastFetch.set group clock) (hs' : s'.clock = clock)
    (hpc' : s'.pc = .scanning now rest) : InTurn config s' := by
  obtain ⟨before, last, hlast, hgroup⟩ := h.waiting _ _ _ hpc
  refine ⟨by rw [hlog]; exact h.unstarved, fun f hf => ?_, fun earlier f later hl => ?_,
    fun earlier f later hl => ?_, fun _ _ _ hr => ?_, fun _ _ _ hw => ?_⟩
  · rw [hlog] at hf
    rw [hs']
    exact (h.times f hf).trans hclock.le
  · rw [hlog] at hl
    rw [hfetch, lastFetchOf_set]
    split_ifs with heq
    · exact .inl ((h.times f (by simp [hl])).trans_lt hclock)
    · refine .inl ((h.answered earlier f later hl).resolve_right fun ⟨_, _, hw⟩ => heq ?_)
      rw [hpc] at hw
      cases hw
      rfl
  · intro other hne hnone
    rw [hlog] at hl
    rw [hfetch, lastFetchOf_set, if_neg]
    · exact h.unchanged earlier f later hl other hne hnone
    · rintro rfl
      rw [hlast] at hl
      rcases append_cons_eq_concat.1 hl with ⟨-, rfl, -⟩ | ⟨later', rfl, -⟩
      · exact hne hgroup.symm
      · exact hnone last (by simp) hgroup
  · rw [hpc'] at hr
    cases hr
  · rw [hpc'] at hw
    cases hw

/-- Every step keeps the groups in turn, when the oldest group comes first. -/
theorem InTurn.next {e : FetchEvent} (h : InTurn config s) (hold : OldestFirst config s e)
    (hs : s.next config e = some s') : InTurn config s' := by
  cases e with
  | check now =>
    rw [FetchLoop.next] at hs
    split at hs
    next hpc =>
      split_ifs at hs with hclock
      cases hs
      exact h.quiet rfl rfl hclock (fun _ _ _ hw => by cases hw)
        (fun _ _ _ hw => by rw [hpc] at hw; cases hw) fun _ _ _ hr => by cases hr
    · cases hs
  | look trim now =>
    rw [FetchLoop.next] at hs
    split at hs
    next began group rest hpc =>
      split_ifs at hs with hclock
      cases hs
      have hnot : ∀ now group rest, s.pc ≠ .waiting now group rest := fun _ _ _ hw => by
        rw [hpc] at hw
        cases hw
      rw [FetchLoop.lookAt]
      split_ifs with hdue
      · exact h.quiet rfl rfl le_rfl (fun _ _ _ hw => by cases hw) hnot fun _ _ _ hr => by cases hr
      · refine h.quiet rfl rfl (hclock.1.trans hclock.2) (fun _ _ _ hw => ?_) hnot
          fun _ _ _ hr => ?_
        · dsimp only at hw
          split_ifs at hw
        · dsimp only at hr
          split_ifs at hr
          cases hr
          exact not_lt.1 hdue
    next hpc =>
      cases hs
      exact h.quiet rfl rfl le_rfl (fun _ _ _ hw => by cases hw)
        (fun _ _ _ hw => by rw [hpc] at hw; cases hw) fun _ _ _ hr => by cases hr
    · cases hs
  | send trim now attempt =>
    rw [FetchLoop.next] at hs
    split at hs
    next began group rest hpc =>
      split_ifs at hs with hclock
      cases hs
      have hnot : ∀ now group rest, s.pc ≠ .waiting now group rest := fun _ _ _ hw => by
        rw [hpc] at hw
        cases hw
      rw [FetchLoop.sendFor]
      dsimp only
      split_ifs with hallowed
      · exact h.request hpc (hold began group rest hpc)
          ((hclock.1.trans hclock.2.1).trans hclock.2.2) rfl rfl rfl
      · exact h.quiet rfl rfl (hclock.1.trans hclock.2.1) (fun _ _ _ hw => by cases hw) hnot
          fun _ _ _ hr => by cases hr
    · cases hs
  | answer success now =>
    rw [FetchLoop.next] at hs
    split at hs
    next began group rest hpc =>
      split_ifs at hs with hclock
      cases hs
      exact h.answer hpc (hclock.1.trans_le hclock.2) rfl rfl rfl rfl
    · cases hs
  | restored =>
    cases hs
    exact ⟨h.unstarved, h.times, h.answered, h.unchanged, h.due, h.waiting⟩

end Steps

/-- The groups that the check has not finished with. -/
def LoopPc.groups : LoopPc → List String
  | .idle => []
  | .scanning _ rest => rest
  | .ready _ group rest | .waiting _ group rest => group :: rest

/-- Only groups of the configuration are requested. -/
structure Configured (s : FetchLoop) : Prop where
  pc : s.pc.groups ⊆ config.groups
  log : ∀ f ∈ s.log, f.group ∈ config.groups

variable {config : GroupConfig} {s : FetchLoop}

theorem Configured.next {s' : FetchLoop} {e : FetchEvent}
    (h : Configured config s) (hs : s.next config e = some s') : Configured config s' := by
  have hpc := h.pc
  cases e with
  | check now =>
    rw [FetchLoop.next] at hs
    split at hs
    · split_ifs at hs
      cases hs
      exact ⟨Subset.refl _, h.log⟩
    · cases hs
  | look trim now =>
    rw [FetchLoop.next] at hs
    split at hs
    next began group rest heq =>
      rw [heq] at hpc
      have hrest : rest ⊆ config.groups := fun g hg => hpc (mem_cons_of_mem _ hg)
      split_ifs at hs
      cases hs
      rw [FetchLoop.lookAt]
      split_ifs
      · exact ⟨hrest, h.log⟩
      · refine ⟨?_, h.log⟩
        dsimp only
        split_ifs
        · exact hpc
        · exact hrest
    next =>
      cases hs
      exact ⟨nil_subset _, h.log⟩
    · cases hs
  | send trim now attempt =>
    rw [FetchLoop.next] at hs
    split at hs
    next began group rest heq =>
      rw [heq] at hpc
      split_ifs at hs
      cases hs
      rw [FetchLoop.sendFor]
      dsimp only
      split_ifs
      · refine ⟨hpc, fun f hf => ?_⟩
        rcases mem_append.1 hf with hf | hf
        · exact h.log f hf
        · rw [mem_singleton.1 hf]
          exact hpc mem_cons_self
      · exact ⟨fun g hg => hpc (mem_cons_of_mem _ hg), h.log⟩
    · cases hs
  | answer success now =>
    rw [FetchLoop.next] at hs
    split at hs
    next began group rest heq =>
      rw [heq] at hpc
      split_ifs at hs
      cases hs
      exact ⟨fun g hg => hpc (mem_cons_of_mem _ hg), h.log⟩
    · cases hs
  | restored =>
    cases hs
    exact ⟨h.pc, h.log⟩

theorem configured_of_reachable (h : config.system.Reachable s) : Configured config s := by
  refine Transition.Reach.induction (I := Configured config) (fun s hs => ?_)
    (fun _ _ _ hs _ hstep => hs.next hstep) h
  refine ⟨?_, fun f hf => ?_⟩
  · rw [hs.1]
    exact nil_subset _
  · rw [hs.2] at hf
    cases hf

theorem inTurn_of_isInitial (h : s.IsInitial) : InTurn config s := by
  have hnil : ∀ earlier (f : Fetch) later, s.log ≠ earlier ++ f :: later := by
    intro earlier f later hl
    rw [h.2] at hl
    simp at hl
  refine ⟨fun earlier f between f' later hl => ?_, fun f hf => ?_,
    fun earlier f later hl => absurd hl (hnil _ _ _), fun earlier f later hl =>
      absurd hl (hnil _ _ _), fun _ _ _ hr => ?_, fun _ _ _ hw => ?_⟩
  · exact absurd (hl.trans (by simp)) (hnil earlier f (between ++ f' :: later))
  · rw [h.2] at hf
    cases hf
  · rw [h.1] at hr
    cases hr
  · rw [h.1] at hw
    cases hw

/-- No group starves in a run in which the oldest group comes first. -/
theorem unstarved_of_oldestFirst
    (h : config.system.Reach (OldestFirst config) s) : Unstarved config s.log :=
  (Transition.Reach.induction (I := InTurn config) (fun _ => inTurn_of_isInitial)
    (fun _ _ _ hs hold hstep => hs.next hold hstep) h).unstarved

/-! ## When another group starves -/

/-- The loop at its first check, without cached files. -/
def freshLoop : FetchLoop where
  clock := 0
  lastFetch := ∅
  limiter := {}

section Starving

variable {config : GroupConfig} {s : FetchLoop} {l : Limiter} {now : ℚ}

theorem limiter_minInterval : config.limiter.minInterval = config.tleRefresh :=
  max_eq_right config.refresh_min

/-- The limiter opens when the refresh time has passed. -/
theorem canRequest_of_le (hf : l.failures = 0) (hnow : 0 ≤ now)
    (h : l.lastRequest + config.tleRefresh ≤ now) :
    (l.canRequest config.limiter now now).2 = true := by
  have hmin : (l.trimRecent now).currentMinInterval config.limiter = config.tleRefresh := by
    rw [Limiter.currentMinInterval, limiter_minInterval]
    exact if_pos hf
  refine decide_eq_true (max_le ?_ hnow)
  rw [hmin]
  exact h

/-- The limiter is closed until the refresh time has passed. -/
theorem canRequest_of_lt (h : now < l.lastRequest + config.tleRefresh) :
    (l.canRequest config.limiter now now).2 = false := by
  by_contra hopen
  rw [Bool.not_eq_false] at hopen
  have hle := le_of_canRequest hopen
  rw [limiter_minInterval] at hle
  exact absurd h (not_lt.2 hle)

theorem reachable_check (now : ℚ) (h : config.system.Reachable s) (hpc : s.pc = .idle)
    (hle : s.clock ≤ now) :
    config.system.Reachable { s with clock := now, pc := .scanning now config.groups } := by
  refine h.step (a := .check now) ?_
  change s.next config (.check now) = _
  rw [FetchLoop.next, hpc]
  exact if_pos hle

variable {rest : List String}

theorem reachable_answer {group : String} {began : ℚ} (now : ℚ)
    (h : config.system.Reachable s) (hpc : s.pc = .waiting began group rest)
    (hlt : s.clock < now) : config.system.Reachable
      { s with
        clock := now, lastFetch := s.lastFetch.set group now
        limiter := s.limiter.recordSuccess now, pc := .scanning began rest } := by
  refine h.step (a := .answer now now) ?_
  change s.next config (.answer now now) = _
  rw [FetchLoop.next, hpc]
  exact if_pos ⟨hlt, le_rfl⟩

/-- A check that is under way while the limiter is closed comes to its end. -/
theorem exists_idle {began : ℚ} (h : config.system.Reachable s) (hpc : s.pc = .scanning began rest)
    (hlt : s.clock < s.limiter.lastRequest + config.tleRefresh) :
    ∃ s', config.system.Reachable s' ∧ s'.pc = .idle ∧ s'.clock = s.clock ∧
      s'.lastFetch = s.lastFetch ∧ s'.log = s.log ∧
        s'.limiter.lastRequest = s.limiter.lastRequest ∧
          s'.limiter.failures = s.limiter.failures := by
  induction rest generalizing s with
  | nil =>
    have hs : config.system.step s (.look 0 0) { s with pc := .idle } := by
      change s.next config (.look 0 0) = _
      rw [FetchLoop.next, hpc]
    exact ⟨_, h.step hs, rfl, rfl, rfl, rfl, rfl, rfl⟩
  | cons group rest ih =>
    have hs : config.system.step s (.look s.clock s.clock)
        (s.lookAt config began group rest s.clock s.clock) := by
      change s.next config (.look s.clock s.clock) = _
      rw [FetchLoop.next, hpc]
      exact if_pos ⟨le_rfl, le_rfl⟩
    have hreach := h.step hs
    rw [FetchLoop.lookAt] at hreach
    split_ifs at hreach with hdue
    · have hidle := ih hreach rfl hlt
      exact hidle
    · dsimp only at hreach
      rw [canRequest_of_lt hlt] at hreach
      have hidle := ih hreach rfl hlt
      exact hidle

/-- A group that is found due while the limiter is open is requested. -/
theorem exists_request {group : String} {began : ℚ}
    (h : config.system.Reachable s) (hpc : s.pc = .scanning began (group :: rest))
    (hf : s.limiter.failures = 0) (hclock : 0 ≤ s.clock)
    (hopen : s.limiter.lastRequest + config.tleRefresh ≤ s.clock)
    (hdue : config.tleRefresh ≤ began - lastFetchOf s.lastFetch group) :
    ∃ s', config.system.Reachable s' ∧ s'.pc = .waiting began group rest ∧ s'.clock = s.clock ∧
      s'.lastFetch = s.lastFetch ∧ s'.log = s.log ++ [⟨group, s.clock, s.lastFetch⟩] ∧
        s'.limiter.lastRequest = s.clock := by
  have hallowed := canRequest_of_le hf hclock hopen
  have hlook : config.system.step s (.look s.clock s.clock)
      { s with
        limiter := (s.limiter.canRequest config.limiter s.clock s.clock).1
        pc := .ready began group rest } := by
    change s.next config (.look s.clock s.clock) = _
    rw [FetchLoop.next, hpc]
    dsimp only
    rw [if_pos ⟨le_rfl, le_rfl⟩, FetchLoop.lookAt, if_neg (not_lt.2 hdue)]
    simp only [hallowed, if_true]
  have hallowed' : (((s.limiter.canRequest config.limiter s.clock s.clock).1).canRequest
      config.limiter s.clock s.clock).2 = true := canRequest_of_le hf hclock hopen
  have hsend := (h.step hlook).step (a := .send s.clock s.clock s.clock)
    (show FetchLoop.next config _ _ = _ from by
      rw [FetchLoop.next]
      dsimp only
      rw [if_pos ⟨le_rfl, le_rfl, le_rfl⟩])
  rw [FetchLoop.sendFor] at hsend
  dsimp only at hsend
  rw [if_pos hallowed'] at hsend
  exact ⟨_, hsend, rfl, rfl, rfl, rfl, rfl⟩

/-- The first group is fetched twice, and no other one. -/
theorem exists_starved {group other : String}
    (hgroups : config.groups = group :: rest) (hother : other ∈ rest) (hne : other ≠ group) :
    ∃ s, config.system.Reachable s ∧ ¬ Unstarved config s.log := by
  have hmin := config.refresh_min
  obtain ⟨R, hR⟩ : ∃ R, R = config.tleRefresh := ⟨_, rfl⟩
  rw [← hR] at hmin
  -- The first check finds all groups due, and the limiter is closed after the first of them.
  have h₀ : config.system.Reachable freshLoop := Transition.Reach.init ⟨rfl, rfl⟩
  have h₁ := reachable_check (R + 1) h₀ rfl (show (0 : ℚ) ≤ R + 1 by linarith)
  obtain ⟨s₂, h₂, hpc₂, hclock₂, hfetch₂, hlog₂, hlast₂⟩ :=
    exists_request h₁ (congrArg (LoopPc.scanning (R + 1)) hgroups) rfl
      (show (0 : ℚ) ≤ R + 1 by linarith) (show 0 + config.tleRefresh ≤ R + 1 by linarith)
      (show config.tleRefresh ≤ R + 1 - 0 by linarith)
  dsimp only at hclock₂ hfetch₂ hlog₂ hlast₂
  have h₃ := reachable_answer (R + 2) h₂ hpc₂ (by rw [hclock₂]; linarith)
  obtain ⟨s₄, h₄, hpc₄, hclock₄, hfetch₄, hlog₄, hlast₄, hfail₄⟩ := exists_idle h₃ rfl
    (show R + 2 < s₂.limiter.lastRequest + config.tleRefresh by rw [hlast₂]; linarith)
  dsimp only at hclock₄ hfetch₄ hlog₄ hlast₄ hfail₄
  -- The next check comes when the first group is due again.
  have h₅ := reachable_check (R + 2 + R) h₄ hpc₄ (by rw [hclock₄]; linarith)
  obtain ⟨s₆, h₆, -, -, -, hlog₆, -⟩ :=
    exists_request h₅ (congrArg (LoopPc.scanning (R + 2 + R)) hgroups) hfail₄
      (show (0 : ℚ) ≤ R + 2 + R by linarith)
      (show s₄.limiter.lastRequest + config.tleRefresh ≤ R + 2 + R by
        rw [hlast₄]
        change s₂.limiter.lastRequest + _ ≤ _
        rw [hlast₂]
        linarith)
      (show config.tleRefresh ≤ R + 2 + R - lastFetchOf s₄.lastFetch group by
        rw [hfetch₄, lastFetchOf_set, if_pos rfl]
        linarith)
  dsimp only at hlog₆
  rw [hlog₄, hlog₂] at hlog₆
  refine ⟨s₆, h₆, fun h => ?_⟩
  rw [hlog₆] at h
  refine h [] _ [] _ [] rfl rfl other (hgroups ▸ mem_cons_of_mem _ hother) hne
    (fun _ hg => absurd hg not_mem_nil) ?_
  change (0 : ℚ) + config.tleRefresh < R + 1
  linarith

/-- Two groups in the configuration are the same one. -/
def OneGroup (config : GroupConfig) : Prop := ∀ g ∈ config.groups, ∀ h ∈ config.groups, g = h

/-- No group starves in the runs in which the oldest group comes first; in all
    runs only if there is a single group. -/
theorem unstarved_iff (config : GroupConfig) :
    (∀ s, config.system.Reach (OldestFirst config) s → Unstarved config s.log) ∧
      ((∀ s, config.system.Reachable s → Unstarved config s.log) ↔ OneGroup config) := by
  refine ⟨fun s => unstarved_of_oldestFirst, fun h => ?_, fun hone s _ => ?_⟩
  · intro g hg g' hg'
    rcases hgroups : config.groups with _ | ⟨group, rest⟩
    · rw [hgroups] at hg
      cases hg
    · have hall : ∀ other ∈ config.groups, other = group := by
        intro other hmem
        by_contra hne
        rw [hgroups] at hmem
        obtain ⟨s, hs, hnot⟩ := exists_starved hgroups
          ((mem_cons.1 hmem).resolve_left hne) hne
        exact hnot (h s hs)
      rw [hall g hg, hall g' hg']
  · intro earlier f between f' later hl _ group hmem hne
    have hf := (configured_of_reachable ‹_›).log f (by simp [hl])
    exact absurd (hone group hmem f.group hf) hne

end Starving

/-- Two groups, fetched once a day. -/
def twoGroups : GroupConfig where
  groups := ["stations", "weather"]
  refresh_min := by norm_num

/-- The second group is never fetched. -/
theorem twoGroups_starved :
    ¬ ∀ config s, GroupConfig.system config |>.Reachable s → Unstarved config s.log := by
  intro h
  have hstarved : ∃ s, twoGroups.system.Reachable s ∧ ¬ Unstarved twoGroups s.log :=
    exists_starved rfl (show "weather" ∈ ["weather"] from List.mem_cons_self)
      (show "weather" ≠ "stations" by decide)
  obtain ⟨s, hs, hnot⟩ := hstarved
  exact hnot (h twoGroups s hs)

end ReticulumPi.Space
