import Mathlib.Tactic.Linarith
import ReticulumPi.Lib.Dict
import ReticulumPi.Lib.Transition

/-!
# The path warmer

One thread requests paths: in cycles, for a list of candidates, and after each
cycle for the destinations that were announced meanwhile. Both look up when a
destination was tried last and how often that has failed, and leave it alone for
a while; every cycle begins with dropping what is older than the longest backoff.
The announcements only put destinations into a queue.

A step is the begin of a cycle or of the work on the queue, one candidate or one
element of the queue, or an announcement. The time is read when a cycle or the
work on the queue begins, and is the time of all its attempts.
-/

namespace ReticulumPi.Paths

/-! ## Attempts -/

/-- How `_warm_node` ends. -/
inductive Outcome where
  /-- There is a path already. -/
  | reachable
  /-- A path was requested, and came. -/
  | answered
  /-- A path was requested, and did not come in time. -/
  | timedOut
  /-- The plugin was stopped while it waited. -/
  | stopped
deriving DecidableEq

/-- What `_warm_node` returns. -/
def Outcome.success : Outcome → Bool
  | answered => true
  | reachable | timedOut | stopped => false

/-- The options, as they are checked. -/
structure Config (δ : Type*) where
  warmInterval : ℚ
  maxRequestsPerCycle : ℕ
  maxBackoff : ℚ
  priority : List δ
  interval_ge : 10 ≤ warmInterval
  requests_pos : 1 ≤ maxRequestsPerCycle

namespace Config

variable {δ : Type*} (cfg : Config δ) (failures : ℕ)

/-- The backoff after so many failures, at least one. -/
def backoff : ℚ := min (cfg.warmInterval * 2 ^ failures) cfg.maxBackoff

/-- How long a destination is left alone, for `interval` where nothing has failed. -/
def wait (interval : ℚ) : ℚ := if 0 < failures then cfg.backoff failures else interval

section Length

variable {cfg} {k m : ℕ}

theorem backoff_mono (h : k ≤ m) : cfg.backoff k ≤ cfg.backoff m := by
  have hinterval := cfg.interval_ge
  refine min_le_min_right _ (mul_le_mul_of_nonneg_left ?_ (by linarith))
  exact pow_le_pow_right₀ (by norm_num) h

/-- The longest backoff is reached with the first failure. -/
theorem backoff_of_le (h : cfg.maxBackoff ≤ 2 * cfg.warmInterval) (hk : 1 ≤ k) :
    cfg.backoff k = cfg.maxBackoff := by
  have hinterval := cfg.interval_ge
  have hpow : (2 : ℚ) ^ 1 ≤ 2 ^ k := pow_le_pow_right₀ (by norm_num) hk
  refine min_eq_right ?_
  nlinarith

/-- The backoff grows with the second failure. -/
theorem backoff_one_lt (h : 2 * cfg.warmInterval < cfg.maxBackoff) (hk : 2 ≤ k) :
    cfg.backoff 1 < cfg.backoff k := by
  have hinterval := cfg.interval_ge
  have hpow : (2 : ℚ) ^ 2 ≤ 2 ^ k := pow_le_pow_right₀ (by norm_num) hk
  have hone : cfg.backoff 1 = 2 * cfg.warmInterval := by
    rw [Config.backoff, pow_one, mul_comm]
    exact min_eq_left h.le
  rw [hone, Config.backoff, lt_min_iff]
  exact ⟨by nlinarith, h⟩

theorem backoff_le : cfg.backoff k ≤ cfg.maxBackoff := min_le_right _ _

end Length

end Config

/-- An attempt at a destination, with the failures that were counted before and
    after it. -/
structure Attempt (δ : Type*) where
  dest : δ
  now : ℚ
  outcome : Outcome
  before : ℕ
  after : ℕ

/-- What is recorded of a run. -/
inductive Entry (δ : Type*) where
  | cycle (now : ℚ)
  | attempt (a : Attempt δ)

/-! ## The thread -/

inductive Pc (δ : Type*) where
  | sleeping
  /-- in a cycle that has begun at `now`, with the candidates that are left and
      the requests that were made -/
  | cycle (now : ℚ) (candidates : List δ) (used : ℕ)
  /-- between a cycle and the work on the queue -/
  | cycled
  | draining (now : ℚ) (drained : ℕ)

structure Warmer (δ : Type*) where
  clock : ℚ
  pc : Pc δ := .sleeping
  active : Bool := true
  lastWarmAttempt : Dict δ ℚ := ∅
  failureCount : Dict δ ℕ := ∅
  recentNodeHashes : List δ := []
  announceWarmQueue : List δ := []
  /-- the attempts and the begins of cycles, the latest first -/
  log : List (Entry δ) := []

inductive Event (δ : Type*) where
  | cycle (now : ℚ) (candidates : List δ)
  | candidate (outcome : Outcome)
  | drain (now : ℚ)
  | queued (outcome : Outcome)
  | announce (dest : δ) (now : ℚ)
  | stop

namespace Warmer

variable {δ : Type*} [DecidableEq δ] (s : Warmer δ) (cfg : Config δ)

/-- The failures that are counted of a destination. -/
def failures (dest : δ) : ℕ := (s.failureCount.get? dest).getD 0

/-- The time since the last attempt that is known. -/
def since (dest : δ) (now : ℚ) : ℚ := now - (s.lastWarmAttempt.get? dest).getD 0

/-- A destination is left alone. -/
def leftAlone (dest : δ) (now interval : ℚ) : Prop :=
  s.since dest now < cfg.wait (s.failures dest) interval
deriving Decidable

/-- What a cycle drops when it begins. -/
def prune (now : ℚ) : Warmer δ :=
  let last := s.lastWarmAttempt.select fun _ v => decide (now - cfg.maxBackoff < v)
  { s with
    lastWarmAttempt := last
    failureCount := s.failureCount.select fun k _ => (last.get? k).isSome }

/-- An attempt at a destination, and what is then known of it. -/
def tryNode (dest : δ) (now : ℚ) (outcome : Outcome) : Warmer δ :=
  let after := if outcome.success then 0 else s.failures dest + 1
  { s with
    active := if outcome = .stopped then false else s.active
    lastWarmAttempt := s.lastWarmAttempt.set dest now
    failureCount := if outcome.success then s.failureCount.erase dest
      else s.failureCount.set dest after
    log := .attempt ⟨dest, now, outcome, s.failures dest, after⟩ :: s.log }

/-- A step, `none` where it cannot happen. -/
def next : Warmer δ → Event δ → Option (Warmer δ)
  | s, .cycle now candidates =>
    match s.pc with
    | .sleeping =>
      if s.active ∧ s.clock ≤ now then
        some { s.prune cfg now with
          clock := now, pc := .cycle now candidates 0, recentNodeHashes := candidates
          log := .cycle now :: s.log }
      else none
    | _ => none
  | s, .candidate outcome =>
    match s.pc with
    | .cycle _ [] _ => some { s with pc := .cycled }
    | .cycle now (dest :: candidates) used =>
      if cfg.maxRequestsPerCycle ≤ used ∨ ¬ s.active then some { s with pc := .cycled }
      else if s.leftAlone cfg dest now cfg.warmInterval then
        some { s with pc := .cycle now candidates used }
      else some { s.tryNode dest now outcome with pc := .cycle now candidates (used + 1) }
    | _ => none
  | s, .drain now =>
    match s.pc with
    | .cycled =>
      if s.clock ≤ now then some { s with clock := now, pc := .draining now 0 } else none
    | _ => none
  | s, .queued outcome =>
    match s.pc with
    | .draining now drained =>
      match s.announceWarmQueue with
      | [] => some { s with pc := .sleeping }
      | dest :: queue =>
        if 5 ≤ drained then some { s with pc := .sleeping }
        else if s.leftAlone cfg dest now (min cfg.warmInterval 30) then
          some { s with announceWarmQueue := queue }
        -- A path that comes is seen only while the plugin is active.
        else if outcome = .answered ∧ ¬ s.active then none
        else some { s.tryNode dest now outcome with
          announceWarmQueue := queue, pc := .draining now (drained + 1) }
    | _ => none
  | s, .announce dest now =>
    if s.clock ≤ now then
      if dest ∉ cfg.priority ∧ dest ∉ s.recentNodeHashes then some { s with clock := now }
      else if s.since dest now < min cfg.warmInterval 30 then some { s with clock := now }
      else if s.announceWarmQueue.length < 20 then
        some { s with clock := now, announceWarmQueue := s.announceWarmQueue ++ [dest] }
      else some { s with clock := now }
    else none
  | s, .stop => some { s with active := false }

end Warmer

/-- The runs of the path warmer. -/
def Config.system {δ : Type*} [DecidableEq δ] (cfg : Config δ) : Transition (Warmer δ) (Event δ) :=
  .ofNext (fun s => ∃ clock, s = { clock := clock }) (Warmer.next cfg)

end ReticulumPi.Paths
