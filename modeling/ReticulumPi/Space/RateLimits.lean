import Mathlib.Data.Fintype.Basic
import Mathlib.Algebra.Order.Field.Rat
import ReticulumPi.Lib.Transition

/-!
# The rate limiters of the space tracker

The space tracker asks three sources for data, each from a thread of its own and
through a limiter of its own. A limiter notes when it last let a request through;
what the limiters know is kept in a file, which is written when a request has
brought something new and when the tracker stops, and read when it starts.

A run consists of the steps of the threads, in any order. A start makes a new
instance of the tracker; the threads of an instance that was stopped may still be
at work, since `stop` waits for them no longer than five seconds. In a crash all
threads end. What keeps a loop from its limiter (no internet, a group that is not
due) and what the answer contains are left open: a loop may end its cycle at any
time. Times are rational numbers, and the clock does not go back.
-/

namespace ReticulumPi.Space

/-- The limiters, in the order of `_limiters`. -/
inductive Source where
  | celestrak
  | launchlibrary
  | swpc
deriving DecidableEq

instance : Fintype Source :=
  ⟨{.celestrak, .launchlibrary, .swpc}, fun src => by cases src <;> decide⟩

/-! ## Limiters -/

/-- The parameters of a `_RateLimiter`. -/
structure LimiterSettings where
  minInterval : ℚ
  maxPerHour : Option ℕ := none
  backoffBase : ℚ := 3600
  backoffCap : ℚ := 86400

/-- The state of a `_RateLimiter`, as it is saved. -/
structure Limiter where
  lastRequest : ℚ := 0
  failures : ℕ := 0
  /-- The successes, oldest first. -/
  recent : List ℚ := []
deriving DecidableEq

namespace Limiter

/-- `_trim_recent` -/
def trimRecent (l : Limiter) (now : ℚ) : Limiter :=
  { l with recent := l.recent.dropWhile (· < now - 3600) }

/-- The newest 3600 elements, which is what the deque holds. -/
def newest (recent : List ℚ) : List ℚ := recent.drop (recent.length - 3600)

variable (settings : LimiterSettings) (l : Limiter)

/-- `_current_min_interval` -/
def currentMinInterval : ℚ :=
  if l.failures = 0 then settings.minInterval
  else max settings.minInterval (min settings.backoffCap
    (settings.backoffBase * 2 ^ (l.failures - 1)))

/-- `next_allowed_at`, of a limiter that has been trimmed -/
def nextAllowedAt : ℚ :=
  let cooldown := l.lastRequest + l.currentMinInterval settings
  let nextByHour := match settings.maxPerHour with
    | none => 0
    | some n => if n ≤ l.recent.length then l.recent.headD 0 + 3600 else 0
  max cooldown nextByHour

/-- `can_request`, which reads the clock to trim the history and then once more;
    the limiter afterwards, and the answer. -/
def canRequest (trim now : ℚ) : Limiter × Bool :=
  let l := l.trimRecent trim
  (l, l.nextAllowedAt settings ≤ now)

/-- `record_attempt` -/
def recordAttempt (now : ℚ) : Limiter := { l with lastRequest := now }

/-- `record_success` -/
def recordSuccess (now : ℚ) : Limiter :=
  trimRecent { l with failures := 0, recent := newest (l.recent ++ [now]) } now

/-- `record_failure` -/
def recordFailure : Limiter := { l with failures := min (l.failures + 1) 16 }

/-- `load_dict` -/
def load (saved : Limiter) (now : ℚ) : Limiter :=
  trimRecent { saved with recent := newest saved.recent } now

end Limiter

/-- The configuration: the intervals in seconds. -/
structure Config where
  tleRefresh : ℚ := 24 * 3600
  launchInterval : ℚ := 30 * 60
  weatherInterval : ℚ := 15 * 60

/-- The limiters that `start` makes. -/
def Config.limiter (config : Config) : Source → LimiterSettings
  | .celestrak => { minInterval := max (6 * 3600) config.tleRefresh }
  | .launchlibrary => { minInterval := max (15 * 60) config.launchInterval, maxPerHour := some 4 }
  | .swpc => { minInterval := max (10 * 60) config.weatherInterval }

/-! ## An instance of the tracker -/

/-- Where a save is: what it has copied of the limiters so far, in their order. -/
abbrev Saving := List Limiter

/-- Where the thread of a source is. -/
inductive Pc where
  /-- between two cycles -/
  | idle
  /-- in a cycle -/
  | scanning
  /-- the loop has found that a request is allowed -/
  | ready
  /-- `get` has found so as well -/
  | cleared
  /-- the request has been sent -/
  | waiting
  /-- the answer is being saved -/
  | saving (copied : Saving)
deriving DecidableEq

/-- What comes of a request: an answer with something new, which is saved at the
    end, one with nothing that can be used, `304 Not Modified`, or an error. -/
inductive Outcome where
  | fresh
  | useless
  | notModified
  | failed
deriving DecidableEq

structure Instance where
  active : Bool := true
  limiters : Source → Limiter
  threads : Source → Pc := fun _ => .idle
  /-- Where `stop` is in saving. -/
  stopping : Option Saving := none

/-- The saved state of the limiters. -/
abbrev File := Source → Limiter

/-- The limiter that a save copies next. -/
def Saving.nextSource (copied : Saving) : Option Source :=
  [Source.celestrak, .launchlibrary, .swpc][copied.length]?

/-- What a save that has copied all limiters writes. -/
def Saving.file : Saving → Option File
  | [celestrak, launchlibrary, swpc] => some fun
    | .celestrak => celestrak
    | .launchlibrary => launchlibrary
    | .swpc => swpc
  | _ => none

/-- The steps of the threads of an instance. -/
inductive Action where
  /-- The loop finds the tracker active and begins a cycle. -/
  | begin (src : Source)
  /-- The loop ends its cycle. -/
  | rest (src : Source)
  /-- The loop asks the limiter. -/
  | test (src : Source) (trim now : ℚ)
  /-- `get` asks the limiter. -/
  | get (src : Source) (trim now : ℚ)
  /-- `get` notes the attempt and sends the request. -/
  | send (src : Source) (now : ℚ)
  | answer (src : Source) (outcome : Outcome) (now : ℚ)
  /-- `_save_rate_state` copies the next limiter. -/
  | copy (src : Source)
  /-- `_save_rate_state` replaces the file. -/
  | write (src : Source)
  | stop
  | stopCopy
  | stopWrite
  /-- `on_internet_available` -/
  | restored

/-- The clock readings of a step. -/
def Action.readings : Action → List ℚ
  | .test _ trim now | .get _ trim now => [trim, now]
  | .send _ now | .answer _ _ now => [now]
  | _ => []

/-- What a step does outside the instance. -/
structure Effect where
  sent : Option (Source × ℚ) := none
  written : Option File := none

namespace Instance

variable (config : Config) (inst : Instance)

def setThread (src : Source) (pc : Pc) : Instance :=
  { inst with threads := Function.update inst.threads src pc }

def setLimiter (src : Source) (l : Limiter) : Instance :=
  { inst with limiters := Function.update inst.limiters src l }

/-- The limiter is asked; the thread goes on to `pc` if a request is allowed, and
    else to `pc'`. -/
def ask (src : Source) (trim now : ℚ) (pc pc' : Pc) : Instance :=
  let (l, allowed) := (inst.limiters src).canRequest (config.limiter src) trim now
  (inst.setLimiter src l).setThread src (if allowed then pc else pc')

/-- The answer to a request is recorded. -/
def record (src : Source) (outcome : Outcome) (now : ℚ) : Instance :=
  match outcome with
  | .fresh =>
    (inst.setLimiter src ((inst.limiters src).recordSuccess now)).setThread src (.saving [])
  | .useless | .notModified =>
    (inst.setLimiter src ((inst.limiters src).recordSuccess now)).setThread src .idle
  | .failed => (inst.setLimiter src (inst.limiters src).recordFailure).setThread src .idle

/-- One more limiter is copied. -/
def copyNext (copied : Saving) : Option Saving :=
  copied.nextSource.map fun src => copied ++ [inst.limiters src]

/-- The step of an instance, with its effect. -/
def act : Action → Option (Instance × Effect)
  | .begin src =>
    if inst.threads src = .idle ∧ inst.active then some (inst.setThread src .scanning, {}) else none
  | .rest src =>
    if inst.threads src = .scanning then some (inst.setThread src .idle, {}) else none
  | .test src trim now =>
    if inst.threads src = .scanning then
      some (inst.ask config src trim now .ready .scanning, {})
    else none
  | .get src trim now =>
    if inst.threads src = .ready then some (inst.ask config src trim now .cleared .idle, {})
    else none
  | .send src now =>
    if inst.threads src = .cleared then
      some ((inst.setLimiter src ((inst.limiters src).recordAttempt now)).setThread src .waiting,
        { sent := some (src, now) })
    else none
  | .answer src outcome now =>
    if inst.threads src = .waiting then some (inst.record src outcome now, {}) else none
  | .copy src =>
    match inst.threads src with
    | .saving copied =>
      (inst.copyNext copied).map fun copied => (inst.setThread src (.saving copied), {})
    | _ => none
  | .write src =>
    match inst.threads src with
    | .saving copied => copied.file.map fun file =>
      (inst.setThread src .idle, { written := some file })
    | _ => none
  | .stop =>
    if inst.active then some ({ inst with active := false, stopping := some [] }, {}) else none
  | .stopCopy =>
    inst.stopping.bind fun copied => (inst.copyNext copied).map fun copied =>
      ({ inst with stopping := some copied }, {})
  | .stopWrite =>
    inst.stopping.bind fun copied => copied.file.map fun file =>
      ({ inst with stopping := none }, { written := some file })
  | .restored =>
    some ({ inst with limiters := fun src => { inst.limiters src with failures := 0 } }, {})

end Instance

/-! ## Runs -/

structure System where
  /-- Newest first. -/
  instances : List Instance := []
  file : Option File := none
  /-- The requests, newest first. -/
  sent : List (Source × ℚ) := []
  clock : ℚ

inductive Event where
  | start (now : ℚ)
  | crash
  /-- A thread of the instance with the given index takes a step. -/
  | act (index : ℕ) (action : Action)

/-- The times of the requests to a source, newest first. -/
def System.times (s : System) (src : Source) : List ℚ :=
  (s.sent.filter fun e => e.1 = src).map Prod.snd

/-- The instance that a start makes. -/
def Instance.load (file : Option File) (now : ℚ) : Instance where
  limiters src := match file with
    | none => {}
    | some file => (file src).load now

variable (config : Config)

def next (s : System) : Event → Option System
  | .start now =>
    if s.clock ≤ now ∧ ∀ inst ∈ s.instances, inst.active = false then
      some { s with instances := .load s.file now :: s.instances, clock := now }
    else none
  | .crash => some { s with instances := [] }
  | .act index action =>
    if (s.clock :: action.readings).IsChain (· ≤ ·) then
      s.instances[index]?.bind fun inst => (inst.act config action).map fun (inst, effect) =>
        { instances := s.instances.set index inst
          file := effect.written.or s.file
          sent := effect.sent.toList ++ s.sent
          clock := action.readings.getLastD s.clock }
    else none

/-- The tracker, from its first start on. -/
abbrev tracker : Transition System Event :=
  .ofNext (fun s => ∃ clock, s = { clock }) (next config)

end ReticulumPi.Space
