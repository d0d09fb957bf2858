import Mathlib.Data.List.MinMax
import Mathlib.Data.List.Sort
import Mathlib.Data.Rat.Floor
import Mathlib.Tactic.Linarith
import ReticulumPi.Lib.Dict
import ReticulumPi.Lib.Transition

/-!
# The limiter of logins

`RateLimiter` with the logins that go by it: a login that is allowed verifies the
password under the `_credential_lock`, while others may be checked and expired
attempts be swept away. Addresses are normalized.

As long as an address neither logs in nor is evicted it fails at most
`max_attempts` times in a base window; the window by which its failures count
only lengthens until it is forgotten; the failure of another address changes
its verdict only by evicting it; and an address that waits for a second more
than it is told, as the seconds are rounded down, is let in (`logins_limited`).
-/

namespace ReticulumPi.Auth.Limiter

open List

/-- What is kept of an address. -/
structure Attempts where
  attempts : List ℚ := []
  consecutiveFailures : ℕ := 0
deriving DecidableEq

/-- The attempts after the cutoff, if there are any. -/
def Attempts.fresh (a : Attempts) (cutoff : ℚ) : Option Attempts :=
  let fresh := a.attempts.filter (cutoff < ·)
  if fresh = [] then none else some { a with attempts := fresh }

structure RateLimiter (Ip : Type*) where
  maxAttempts : ℕ := 5
  baseWindow : ℕ := 60
  /-- `MAX_TRACKED_IPS` -/
  maxTrackedIps : ℕ := 10000
  state : Dict Ip Attempts := ∅

variable {Ip : Type*} [DecidableEq Ip]

namespace RateLimiter

variable (r : RateLimiter Ip) (ip : Ip) (now : ℚ)

/-- `_effective_window` -/
def effectiveWindow : ℚ :=
  match r.state.get? ip with
  | none => r.baseWindow
  | some a => r.baseWindow * (min (2 ^ a.consecutiveFailures) 256 : ℕ)

/-- `_cleanup` -/
def cleanup : RateLimiter Ip :=
  { r with
    state := match r.state.get? ip with
      | none => r.state
      | some a =>
        match a.fresh (now - r.effectiveWindow ip) with
        | none => r.state.erase ip
        | some a => r.state.set ip a }

/-- `is_allowed`, after the cleanup. -/
def hasRoom : Bool :=
  match r.state.get? ip with
  | none => true
  | some a => a.attempts.length < r.maxAttempts

/-- `is_allowed` -/
def isAllowed : Bool × RateLimiter Ip := ((r.cleanup ip now).hasRoom ip, r.cleanup ip now)

/-- The address that `record_attempt` evicts. -/
def evicted : Option Ip :=
  if (r.state.get? ip).isNone ∧ r.maxTrackedIps ≤ r.state.entries.length then
    (r.state.entries.argmin fun e => e.2.attempts.getLast?.getD 0).map (·.1)
  else none

/-- `record_attempt` -/
def recordAttempt : RateLimiter Ip :=
  let r := r.cleanup ip now
  let state := (r.evicted ip).elim r.state r.state.erase
  let a := (state.get? ip).getD {}
  { r with state := state.set ip ⟨a.attempts ++ [now], a.consecutiveFailures + 1⟩ }

/-- `record_success` -/
def recordSuccess : RateLimiter Ip := { r with state := r.state.erase ip }

/-- `retry_after` -/
def retryAfter : ℤ :=
  match (r.state.get? ip).bind (·.attempts.head?) with
  | none => 0
  | some oldest =>
    let remaining := r.effectiveWindow ip - (now - oldest)
    max 1 (remaining.num.tdiv remaining.den)

/-- The addresses that `cleanup_all_expired` removes as too many. -/
def excess : List Ip :=
  ((r.state.entries.insertionSort fun e e' =>
    e.2.attempts.max?.getD 0 ≤ e'.2.attempts.max?.getD 0).take
      (r.state.entries.length - r.maxTrackedIps)).map (·.1)

/-- `cleanup_all_expired`, before that. -/
def cleanupExpired : RateLimiter Ip :=
  { r with state := (r.state.keys.foldl (fun r ip => r.cleanup ip now) r).state }

/-- `cleanup_all_expired` -/
def cleanupAllExpired : RateLimiter Ip :=
  let r := r.cleanupExpired now
  { r with state := r.excess.foldl Dict.erase r.state }

end RateLimiter

/-- The limiter with its clock and the login that holds the lock. -/
structure System (Ip : Type*) where
  limiter : RateLimiter Ip
  clock : ℚ := 0
  verifying : Option Ip := none
  /-- When the passwords of an address were wrong since it last logged in or was
      evicted. -/
  failed : Ip → List ℚ := fun _ => []

inductive Event (Ip : Type*) where
  | check (ip : Ip)
  | login (ip : Ip)
  /-- The password is verified. -/
  | verified (ok : Bool)
  | tick (elapsed : ℚ)
  | sweep

namespace System

variable (s : System Ip)

/-- The address that is evicted when the password of the other one is wrong. -/
def evicts (ip : Ip) : Option Ip := (s.limiter.cleanup ip s.clock).evicted ip

/-- The password was wrong. -/
def fail (ip : Ip) : System Ip :=
  { s with
    limiter := s.limiter.recordAttempt ip s.clock
    verifying := none
    failed := fun ip' =>
      if ip' = ip then s.failed ip ++ [s.clock]
      else if s.evicts ip = some ip' then [] else s.failed ip' }

def next : Event Ip → Option (System Ip)
  | .check ip => some { s with limiter := (s.limiter.isAllowed ip s.clock).2 }
  | .login ip =>
    if s.verifying = none then
      let (ok, limiter) := s.limiter.isAllowed ip s.clock
      some { s with limiter, verifying := if ok then some ip else none }
    else none
  | .verified true => s.verifying.map fun ip =>
    { s with
      limiter := s.limiter.recordSuccess ip
      verifying := none
      failed := fun ip' => if ip' = ip then [] else s.failed ip' }
  | .verified false => s.verifying.map s.fail
  | .tick elapsed => if 0 ≤ elapsed then some { s with clock := s.clock + elapsed } else none
  | .sweep => some { s with
    limiter := s.limiter.cleanupAllExpired s.clock
    failed := fun ip =>
      if ip ∈ (s.limiter.cleanupExpired s.clock).excess then [] else s.failed ip }

end System

def system (Ip : Type*) [DecidableEq Ip] (maxAttempts baseWindow : ℕ) :
    Transition (System Ip) (Event Ip) :=
  .ofNext (· = { limiter := { maxAttempts, baseWindow } }) System.next

/-! ## One address -/

/-- The failures of the last two base windows are kept, and not too many are in
    any base window, or are kept. -/
structure Good (m b : ℕ) (clock : ℚ) (failed : List ℚ) (v : Option Attempts) : Prop where
  recent : failed.filter (clock - 2 * b < ·) =
    (v.elim [] (·.attempts)).filter (clock - 2 * b < ·)
  offended : ∀ a ∈ v, 1 ≤ a.consecutiveFailures
  bounded : ∀ t : ℚ, failed.countP (fun u => t - b < u ∧ u ≤ t) ≤ max 1 m
  few : ∀ a ∈ v, a.attempts.length ≤ max 1 m

/-- The address has room for a failure. -/
def Room (m : ℕ) (v : Option Attempts) : Prop := ∀ a ∈ v, a.attempts.length < m

/-- Attempts that have expired are removed. -/
structure Cleaned (b : ℕ) (clock : ℚ) (v v' : Option Attempts) : Prop where
  recent : (∀ a ∈ v, 1 ≤ a.consecutiveFailures) →
    (v'.elim [] (·.attempts)).filter (clock - 2 * b < ·) =
      (v.elim [] (·.attempts)).filter (clock - 2 * b < ·)
  kept : ∀ a' ∈ v', ∃ a ∈ v, a'.consecutiveFailures = a.consecutiveFailures ∧
    a'.attempts.length ≤ a.attempts.length

variable {m b : ℕ} {clock clock' : ℚ} {failed : List ℚ} {v v' v'' : Option Attempts}

theorem filter_filter_lt {c c' : ℚ} (h : c ≤ c') (l : List ℚ) :
    (l.filter (c < ·)).filter (c' < ·) = l.filter (c' < ·) := by
  rw [filter_filter]
  refine filter_congr fun t _ => ?_
  rw [← Bool.decide_and, decide_eq_decide]
  exact ⟨fun ht => ht.1, fun ht => ⟨ht, h.trans_lt ht⟩⟩

theorem Cleaned.refl : Cleaned b clock v v := ⟨fun _ => rfl, fun a ha => ⟨a, ha, rfl, le_rfl⟩⟩

theorem Cleaned.offended (h : Cleaned b clock v v') (hv : ∀ a ∈ v, 1 ≤ a.consecutiveFailures) :
    ∀ a ∈ v', 1 ≤ a.consecutiveFailures := fun a' ha' => by
  obtain ⟨a, ha, heq, -⟩ := h.kept a' ha'
  exact heq ▸ hv a ha

theorem Cleaned.trans (h : Cleaned b clock v v') (h' : Cleaned b clock v' v'') :
    Cleaned b clock v v'' where
  recent hv := (h'.recent (h.offended hv)).trans (h.recent hv)
  kept a'' ha'' := by
    obtain ⟨a', ha', heq', hle'⟩ := h'.kept a'' ha''
    obtain ⟨a, ha, heq, hle⟩ := h.kept a' ha'
    exact ⟨a, ha, heq'.trans heq, hle'.trans hle⟩

theorem cleaned_fresh (a : Attempts) (cutoff : ℚ)
    (hc : 1 ≤ a.consecutiveFailures → cutoff ≤ clock - 2 * b) :
    Cleaned b clock (some a) (a.fresh cutoff) := by
  have hfresh : (a.fresh cutoff).elim [] (·.attempts) = a.attempts.filter (cutoff < ·) := by
    simp only [Attempts.fresh]
    split_ifs with h
    · exact h.symm
    · rfl
  refine ⟨fun ha => ?_, fun a' ha' => ⟨a, rfl, ?_⟩⟩
  · rw [hfresh, filter_filter_lt (hc (ha a rfl))]
    rfl
  · obtain ⟨-, ha'⟩ := Option.ite_none_left_eq_some.1 ha'
    cases ha'
    exact ⟨rfl, length_filter_le _ _⟩

theorem Good.nil : Good m b clock [] none where
  recent := rfl
  offended _ h := by cases h
  bounded _ := Nat.zero_le _
  few _ h := by cases h

theorem Good.cleaned (h : Good m b clock failed v) (hc : Cleaned b clock v v') :
    Good m b clock failed v' where
  recent := h.recent.trans (hc.recent h.offended).symm
  offended := hc.offended h.offended
  bounded := h.bounded
  few a' ha' := by
    obtain ⟨a, ha, -, hle⟩ := hc.kept a' ha'
    exact hle.trans (h.few a ha)

theorem Room.cleaned (h : Room m v) (hc : Cleaned b clock v v') : Room m v' := fun a' ha' => by
  obtain ⟨a, ha, -, hle⟩ := hc.kept a' ha'
  exact hle.trans_lt (h a ha)

theorem Good.later (h : Good m b clock failed v) (hle : clock ≤ clock') :
    Good m b clock' failed v := by
  refine { h with recent := ?_ }
  have hcut : clock - 2 * b ≤ clock' - 2 * b := by linarith
  rw [← filter_filter_lt hcut failed, h.recent, filter_filter_lt hcut]

/-- The address fails once more, for which it had room. -/
theorem Good.fail (h : Good m b clock failed v) (hroom : Room m v) :
    Good m b clock (failed ++ [clock]) (some
      ⟨(v.getD {}).attempts ++ [clock], (v.getD {}).consecutiveFailures + 1⟩) := by
  have hrecent : (failed ++ [clock]).filter (clock - 2 * b < ·) =
      ((v.getD {}).attempts ++ [clock]).filter (clock - 2 * b < ·) := by
    rw [filter_append, filter_append, h.recent]
    cases v <;> rfl
  have hfew : (v.getD {}).attempts.length + 1 ≤ max 1 m := by
    cases v with
    | none => exact le_max_left _ _
    | some a => exact (Nat.succ_le_of_lt (hroom a rfl)).trans (le_max_right _ _)
  refine ⟨hrecent, fun a ha => ?_, fun t => ?_, fun a ha => ?_⟩
  · cases ha
    exact Nat.le_add_left _ _
  rotate_left
  · cases ha
    rwa [length_append]
  by_cases hin : t - b < clock ∧ clock ≤ t
  · -- What else is in the window is still kept.
    have hb : (0 : ℚ) ≤ b := Nat.cast_nonneg b
    calc (failed ++ [clock]).countP (fun u => t - b < u ∧ u ≤ t)
        ≤ (failed ++ [clock]).countP (clock - 2 * b < ·) :=
          countP_mono_left fun u _ hu => by
            rw [decide_eq_true_eq] at hu ⊢
            linarith
      _ = (((v.getD {}).attempts ++ [clock]).filter (clock - 2 * b < ·)).length := by
          rw [countP_eq_length_filter, hrecent]
      _ ≤ (v.getD {}).attempts.length + 1 :=
          (length_filter_le _ _).trans (by rw [length_append, length_singleton])
      _ ≤ max 1 m := hfew
  · rw [countP_append, countP_singleton, if_neg (by simpa using hin)]
    exact h.bounded t

/-! ## The table -/

namespace RateLimiter

variable {r r' : RateLimiter Ip} {ip ip' : Ip} {now : ℚ}

theorem get?_cleanup_self : (r.cleanup ip now).state.get? ip =
    (r.state.get? ip).bind (·.fresh (now - r.effectiveWindow ip)) := by
  rw [cleanup]
  dsimp only
  rcases hv : r.state.get? ip with _ | a
  · exact hv
  · rw [Option.bind_some]
    cases hf : a.fresh (now - r.effectiveWindow ip) <;> simp [hf]

theorem get?_cleanup_of_ne (h : ip' ≠ ip) :
    (r.cleanup ip now).state.get? ip' = r.state.get? ip' := by
  rw [cleanup]
  dsimp only
  split
  · rfl
  · split
    · exact Dict.get?_erase_of_ne h
    · exact Dict.get?_set_of_ne h

theorem cleaned_cleanup (r : RateLimiter Ip) (ip ip' : Ip) (now : ℚ) :
    Cleaned r.baseWindow now (r.state.get? ip') ((r.cleanup ip now).state.get? ip') := by
  by_cases h : ip' = ip
  · subst h
    rw [get?_cleanup_self]
    rcases hv : r.state.get? ip' with _ | a
    · exact .refl
    · refine cleaned_fresh a _ fun ha => ?_
      have hb : (0 : ℚ) ≤ r.baseWindow := Nat.cast_nonneg _
      have htwo : (2 : ℚ) ≤ (min (2 ^ a.consecutiveFailures) 256 : ℕ) := by
        exact_mod_cast le_min (Nat.le_self_pow (Nat.one_le_iff_ne_zero.1 ha) 2) (by decide)
      rw [effectiveWindow, hv]
      dsimp only
      nlinarith
  · rw [get?_cleanup_of_ne h]
    exact .refl

theorem cleaned_cleanupExpired (r : RateLimiter Ip) (ip : Ip) (now : ℚ) :
    Cleaned r.baseWindow now (r.state.get? ip) ((r.cleanupExpired now).state.get? ip) := by
  rw [cleanupExpired]
  dsimp only
  generalize r.state.keys = keys
  induction keys generalizing r with
  | nil => exact .refl
  | cons k keys ih => exact (cleaned_cleanup r k ip now).trans (ih (r.cleanup k now))

theorem get?_foldl_erase (l : List Ip) (d : Dict Ip Attempts) :
    (l.foldl Dict.erase d).get? ip = if ip ∈ l then none else d.get? ip := by
  induction l generalizing d with
  | nil => simp
  | cons k l ih =>
    rw [foldl_cons, ih, Dict.get?_erase]
    by_cases h : ip = k <;> simp [h]

theorem get?_sweep : (r.cleanupAllExpired now).state.get? ip =
    if ip ∈ (r.cleanupExpired now).excess then none
    else (r.cleanupExpired now).state.get? ip :=
  get?_foldl_erase _ _

theorem get?_evicted :
    ((r.evicted ip).elim r.state r.state.erase).get? ip = r.state.get? ip := by
  cases h : r.evicted ip with
  | none => rfl
  | some o =>
    obtain ⟨⟨hnone, -⟩, -⟩ := Option.ite_none_right_eq_some.1 h
    rw [Option.elim_some, Dict.get?_erase, Option.isNone_iff_eq_none.1 hnone, ite_self]

theorem get?_recordAttempt_self (r : RateLimiter Ip) (ip : Ip) (now : ℚ) :
    (r.recordAttempt ip now).state.get? ip =
      let a := ((r.cleanup ip now).state.get? ip).getD {}
      some ⟨a.attempts ++ [now], a.consecutiveFailures + 1⟩ := by
  rw [recordAttempt, Dict.get?_set_self, get?_evicted]

theorem get?_recordAttempt_of_ne (h : ip' ≠ ip) : (r.recordAttempt ip now).state.get? ip' =
    if (r.cleanup ip now).evicted ip = some ip' then none else r.state.get? ip' := by
  rw [recordAttempt]
  dsimp only
  rw [Dict.get?_set_of_ne h]
  cases (r.cleanup ip now).evicted ip with
  | none => exact get?_cleanup_of_ne h
  | some o =>
    by_cases ho : o = ip'
    · simp [ho]
    · rw [if_neg (by simpa using ho)]
      exact (Dict.get?_erase_of_ne (Ne.symm ho)).trans (get?_cleanup_of_ne h)

/-- The seconds that are told are rounded down. -/
theorem lt_retryAfter {oldest : ℚ} {attempts : List ℚ} {n : ℕ}
    (h : r.state.get? ip = some ⟨oldest :: attempts, n⟩) (now : ℚ) :
    r.effectiveWindow ip - (now - oldest) < r.retryAfter ip now + 1 := by
  rw [retryAfter, h]
  dsimp only [Option.bind_some, head?_cons]
  generalize r.effectiveWindow ip - (now - oldest) = x
  rcases le_or_gt 0 x with hx | hx
  · have hfloor : x.num.tdiv x.den = ⌊x⌋ := by
      rw [Rat.floor_def', Int.tdiv_eq_ediv_of_nonneg (Rat.num_nonneg.2 hx)]
    rw [hfloor]
    calc x < ⌊x⌋ + 1 := Int.lt_floor_add_one x
      _ ≤ _ := by gcongr; exact_mod_cast le_max_right 1 ⌊x⌋
  · have hone : (1 : ℚ) ≤ (max 1 (x.num.tdiv x.den) : ℤ) := by exact_mod_cast le_max_left _ _
    linarith

/-- The verdict depends on what is kept of the address. -/
theorem isAllowed_congr (hm : r'.maxAttempts = r.maxAttempts) (hb : r'.baseWindow = r.baseWindow)
    (h : r'.state.get? ip = r.state.get? ip) :
    (r'.isAllowed ip now).1 = (r.isAllowed ip now).1 := by
  have hw : r'.effectiveWindow ip = r.effectiveWindow ip := by
    rw [effectiveWindow, effectiveWindow, h, hb]
  simp only [isAllowed, hasRoom, get?_cleanup_self, h, hw]
  simp only [cleanup, hm]
  rfl

/-- A second after an address was told to come back its oldest attempt has expired. -/
theorem isAllowed_of_retryAfter {later : ℚ}
    (hfew : ∀ a ∈ r.state.get? ip, a.attempts.length ≤ max 1 r.maxAttempts)
    (hlater : now + r.retryAfter ip now + 1 ≤ later) : (r.isAllowed ip later).1 = true := by
  simp only [isAllowed, hasRoom, get?_cleanup_self]
  rcases hv : r.state.get? ip with _ | ⟨_ | ⟨oldest, attempts⟩, n⟩
  · rfl
  · rfl
  have hgone : oldest ≤ later - r.effectiveWindow ip := by
    have htold := lt_retryAfter hv now
    linarith
  rw [Option.bind_some, Attempts.fresh]
  dsimp only
  rw [filter_cons_of_neg (by simpa using hgone)]
  split_ifs with hnil
  · rfl
  · -- There is room for at least two.
    have hle := length_filter_le (later - r.effectiveWindow ip < ·) attempts
    have hpos := length_pos_of_ne_nil hnil
    have hmax := hfew _ hv
    rw [length_cons] at hmax
    have hroom : (attempts.filter (later - r.effectiveWindow ip < ·)).length < r.maxAttempts := by
      omega
    exact decide_eq_true hroom

/-- More offences, a longer window. -/
theorem effectiveWindow_le {a a' : Attempts} (hb : r'.baseWindow = r.baseWindow)
    (ha : r.state.get? ip = some a) (ha' : r'.state.get? ip = some a')
    (h : a.consecutiveFailures ≤ a'.consecutiveFailures) :
    r.effectiveWindow ip ≤ r'.effectiveWindow ip := by
  rw [effectiveWindow, effectiveWindow, ha, ha', hb]
  have hpow : 2 ^ a.consecutiveFailures ≤ 2 ^ a'.consecutiveFailures :=
    Nat.pow_le_pow_right (by decide) h
  exact mul_le_mul_of_nonneg_left (by exact_mod_cast min_le_min_right 256 hpow)
    (Nat.cast_nonneg _)

end RateLimiter

/-! ## Runs -/

/-- What a step does to an address. -/
inductive Touches (b : ℕ) (s s' : System Ip) (ip : Ip) : Prop
  | keeps (clean : Cleaned b s.clock (s.limiter.state.get? ip) (s'.limiter.state.get? ip))
    (failed : s'.failed ip = s.failed ip)
  | forgets (gone : s'.limiter.state.get? ip = none) (failed : s'.failed ip = [])
  | fails (verifying : s.verifying = some ip ∧ s'.verifying = none)
    (counted : s'.limiter.state.get? ip =
      let a := ((s.limiter.cleanup ip s.clock).state.get? ip).getD {}
      some ⟨a.attempts ++ [s.clock], a.consecutiveFailures + 1⟩)
    (failed : s'.failed ip = s.failed ip ++ [s.clock])

/-- What holds of every reachable state. -/
structure Sound (m b : ℕ) (s : System Ip) : Prop where
  maxAttempts : s.limiter.maxAttempts = m
  baseWindow : s.limiter.baseWindow = b
  good : ∀ ip, Good m b s.clock (s.failed ip) (s.limiter.state.get? ip)
  room : ∀ ip ∈ s.verifying, Room m (s.limiter.state.get? ip)

/-- The address is not forgotten in the step. -/
def Remembers (ip : Ip) (s : System Ip) (e : Event Ip) : Prop :=
  ((s.limiter.cleanup ip s.clock).state.get? ip).isSome ∧
    ∀ s', s.next e = some s' → (s'.limiter.state.get? ip).isSome

variable {s s' : System Ip} {e : Event Ip} {ip : Ip}

/-- A step keeps the settings and the clock, and only an address with room begins to
    log in. -/
theorem System.next_frame (hs : s.next e = some s') :
    s'.limiter.maxAttempts = s.limiter.maxAttempts ∧
      s'.limiter.baseWindow = s.limiter.baseWindow ∧ s.clock ≤ s'.clock ∧
      ∀ ip, s'.verifying = some ip → s.verifying = some ip ∨ s'.limiter.hasRoom ip = true := by
  cases e with
  | check | sweep => cases hs; exact ⟨rfl, rfl, le_rfl, fun _ => .inl⟩
  | login =>
    obtain ⟨-, hs⟩ := Option.ite_none_right_eq_some.1 hs
    cases hs
    refine ⟨rfl, rfl, le_rfl, fun ip hip => .inr ?_⟩
    obtain ⟨hok, hip⟩ := Option.ite_none_right_eq_some.1 hip
    cases hip
    exact hok
  | verified ok =>
    cases ok
    all_goals
      obtain ⟨ip, -, rfl⟩ := Option.map_eq_some_iff.1 hs
      exact ⟨rfl, rfl, le_rfl, fun _ h => by cases h⟩
  | tick =>
    obtain ⟨hle, hs⟩ := Option.ite_none_right_eq_some.1 hs
    cases hs
    exact ⟨rfl, rfl, le_add_of_nonneg_right hle, fun _ => .inl⟩

theorem System.next_touches (hs : s.next e = some s') (ip : Ip) :
    Touches s.limiter.baseWindow s s' ip := by
  cases e with
  | check ip' => cases hs; exact .keeps (s.limiter.cleaned_cleanup ip' ip s.clock) rfl
  | login ip' =>
    obtain ⟨-, hs⟩ := Option.ite_none_right_eq_some.1 hs
    cases hs
    exact .keeps (s.limiter.cleaned_cleanup ip' ip s.clock) rfl
  | verified ok =>
    cases ok with
    | true =>
      obtain ⟨ip', -, rfl⟩ := Option.map_eq_some_iff.1 hs
      by_cases h : ip = ip'
      · exact .forgets (h ▸ Dict.get?_erase_self) (if_pos h)
      · exact .keeps ((Dict.get?_erase_of_ne h).symm ▸ .refl) (if_neg h)
    | false =>
      obtain ⟨ip', hv, rfl⟩ := Option.map_eq_some_iff.1 hs
      by_cases h : ip = ip'
      · subst h
        exact .fails ⟨hv, rfl⟩ (s.limiter.get?_recordAttempt_self ip s.clock) (if_pos rfl)
      · have hstate := @RateLimiter.get?_recordAttempt_of_ne _ _ s.limiter _ _ s.clock h
        have hfailed : (s.fail ip').failed ip =
            if s.evicts ip' = some ip then [] else s.failed ip := if_neg h
        rw [← System.evicts] at hstate
        split_ifs at hstate hfailed
        · exact .forgets hstate hfailed
        · exact .keeps (hstate.symm ▸ .refl) hfailed
  | tick =>
    obtain ⟨-, hs⟩ := Option.ite_none_right_eq_some.1 hs
    cases hs
    exact .keeps .refl rfl
  | sweep =>
    cases hs
    by_cases h : ip ∈ (s.limiter.cleanupExpired s.clock).excess
    · exact .forgets (RateLimiter.get?_sweep.trans (if_pos h)) (if_pos h)
    · refine .keeps ?_ (if_neg h)
      exact (RateLimiter.get?_sweep.trans (if_neg h)).symm ▸
        s.limiter.cleaned_cleanupExpired ip s.clock

namespace Sound

variable (h : Sound m b s)
include h

theorem touches (hs : s.next e = some s') (ip : Ip) : Touches b s s' ip :=
  h.baseWindow ▸ s.next_touches hs ip

theorem cleanup (ip : Ip) : Cleaned b s.clock (s.limiter.state.get? ip)
    ((s.limiter.cleanup ip s.clock).state.get? ip) :=
  h.baseWindow ▸ s.limiter.cleaned_cleanup ip ip s.clock

theorem next (hs : s.next e = some s') : Sound m b s' := by
  obtain ⟨hmax, hbase, hclock, hlogin⟩ := s.next_frame hs
  refine ⟨hmax.trans h.maxAttempts, hbase.trans h.baseWindow, fun ip => ?_, fun ip hip => ?_⟩
  · cases h.touches hs ip with
    | keeps clean failed => exact failed ▸ ((h.good ip).cleaned clean).later hclock
    | forgets gone failed => exact gone ▸ failed ▸ .nil
    | fails hv counted failed =>
      rw [counted, failed]
      exact (((h.good ip).cleaned (h.cleanup ip)).fail
        ((h.room ip hv.1).cleaned (h.cleanup ip))).later hclock
  · rcases hlogin ip hip with hv | hroom
    · cases h.touches hs ip with
      | keeps clean => exact (h.room ip hv).cleaned clean
      | forgets gone => exact gone ▸ fun _ ha => by cases ha
      | fails hv' => cases hip.symm.trans hv'.2
    · intro a ha
      rw [RateLimiter.hasRoom, ha, hmax, h.maxAttempts] at hroom
      exact of_decide_eq_true hroom

/-- The window of an address that is not forgotten only lengthens. -/
theorem effectiveWindow_le (hok : Remembers ip s e) (hs : s.next e = some s') :
    s.limiter.effectiveWindow ip ≤ s'.limiter.effectiveWindow ip := by
  obtain ⟨a', ha'⟩ := Option.isSome_iff_exists.1 (hok.2 s' hs)
  obtain ⟨c, hc⟩ := Option.isSome_iff_exists.1 hok.1
  obtain ⟨a, ha, hca, -⟩ := (h.cleanup ip).kept c hc
  refine RateLimiter.effectiveWindow_le (s.next_frame hs).2.1 ha ha' ?_
  cases h.touches hs ip with
  | keeps clean =>
    obtain ⟨a'', ha'', heq, -⟩ := clean.kept a' ha'
    cases Option.mem_unique ha ha''
    exact heq.ge
  | forgets gone => cases gone.symm.trans ha'
  | fails _ counted =>
    rw [hc] at counted
    cases ha'.symm.trans counted
    exact hca.ge.trans (Nat.le_succ _)

end Sound

/-- In every run. -/
theorem logins_limited {s : System Ip} (h : (system Ip m b).Reachable s) :
    (∀ ip, ∀ t : ℚ, (s.failed ip).countP (fun u => t - b < u ∧ u ≤ t) ≤ max 1 m) ∧
    (∀ ip s', (system Ip m b).Leads (Remembers ip) s s' →
      s.limiter.effectiveWindow ip ≤ s'.limiter.effectiveWindow ip) ∧
    (∀ ip other, s.verifying = some other → ip ≠ other → s.evicts other ≠ some ip →
      ∀ now, ((s.fail other).limiter.isAllowed ip now).1 = (s.limiter.isAllowed ip now).1) ∧
    ∀ ip later, s.clock + s.limiter.retryAfter ip s.clock + 1 ≤ later →
      (s.limiter.isAllowed ip later).1 = true := by
  have hsound : Sound m b s := h.induction (I := Sound m b)
    (fun s hs => by subst hs; exact ⟨rfl, rfl, fun _ => .nil, fun _ h => by cases h⟩)
    fun s e s' hsound _ hs => hsound.next hs
  refine ⟨fun ip => (hsound.good ip).bounded, fun ip s' hleads => ?_,
    fun ip other hv hne hevict now => ?_, fun ip later hlater => ?_⟩
  · refine (hleads.invariant (I := fun s' => Sound m b s' ∧
      s.limiter.effectiveWindow ip ≤ s'.limiter.effectiveWindow ip)
      (fun s₁ e s₂ h₁ hok hs => ?_) ⟨hsound, le_rfl⟩).2
    exact ⟨h₁.1.next hs, h₁.2.trans (h₁.1.effectiveWindow_le hok hs)⟩
  · refine RateLimiter.isAllowed_congr rfl rfl ?_
    exact (RateLimiter.get?_recordAttempt_of_ne hne).trans (if_neg hevict)
  · refine RateLimiter.isAllowed_of_retryAfter (fun a ha => ?_) hlater
    exact hsound.maxAttempts ▸ (hsound.good ip).few a ha

/-- Wrong passwords of an address. -/
def wrong (ip n : ℕ) : List (Event ℕ) :=
  (replicate n [.login ip, .verified false]).flatten

/-- An address is locked out, and the password of another is verified. -/
def lockedRun : List (Event ℕ) := wrong 0 5 ++ [.tick 1, .login 1]

/-- When the other one has failed, the address is still locked out. -/
theorem logins_limited_locked : ∃ s, (system ℕ 5 60).Reachable s ∧ s.failed 0 = [0, 0, 0, 0, 0] ∧
    ((s.fail 1).limiter.isAllowed 0 s.clock).1 = false := by
  obtain ⟨s, hs, hfailed, hv, hevicts, hok⟩ :
      ∃ s ∈ lockedRun.foldlM System.next { limiter := {} }, s.failed 0 = [0, 0, 0, 0, 0] ∧
        s.verifying = some 1 ∧ s.evicts 1 ≠ some 0 ∧
        (s.limiter.isAllowed 0 s.clock).1 = false := by
    decide +kernel
  have hreach : (system ℕ 5 60).Reachable s := .foldlM (.init rfl) hs
  have heq := (logins_limited hreach).2.2.1 0 1 hv (by decide) hevicts s.clock
  exact ⟨s, hreach, hfailed, heq.trans hok⟩

end ReticulumPi.Auth.Limiter
