import ReticulumPi.Recovery.Quarantine

/-!
# A quarantine is never shortened

The limiters of one state file, as in `sharing`, when the file may also come
to hold other contents at any time (`disturbed`). A limiter in quarantine
since `t` allows no reservation before `t + windowSeconds`, nor does any other
once the file says so; this is `Kept` of a state, and each step keeps it.

There are two conditions on the runs (`Orderly`). Between the readings of a
reload the order of what remains of the quarantines held and on file must not
turn (`Fair`): a limiter that pauses there may replace the quarantine on file
by an older one; and a quarantine of this boot must not give way to one of
another boot, which the wall clock may end at any time. And a file that will
be accepted must not tell of a quarantine of this boot in the future.
-/

namespace ReticulumPi.Recovery

open Prog

variable (w : World) (c : Config)

/-- What may happen: a call of a limiter, the end of one with its process, or
    other contents of the state file. -/
inductive Happening
  | call (l : ℕ) (call : Call)
  | exit (l : ℕ)
  | corrupt (file : StateFile)

/-- The state after it, if it can happen. -/
def Shared.meet (s : Shared) : Happening → Option Shared
  | .call l call => s.next w c (.call l call)
  | .exit l => s.next w c (.exit l)
  | .corrupt file => some { s with file := file }

/-- If the file will be accepted and holds a quarantine of this boot, it began
    before the instant `n`. -/
def Plausible (file : StateFile) (n : ℕ) : Prop :=
  ∀ p q, file = .payload p → validatePayload p = .ok () → p.quarantine = some q →
    q.bootId = c.bootId → q.monotonicTime ≤ w.mono n

/-- One state file, and the limiters that come to share it. -/
def disturbed : Transition Shared Happening :=
  .ofNext (fun s => (∀ l, s.limiters l = none) ∧ s.granted = [] ∧ Plausible w c s.file s.tick)
    (Shared.meet w c)

/-- The reload of a call is `Fair`, if the limiter it runs on may hold a quarantine. -/
def Call.Fair (s : Session) : Call → Prop
  | .reserve _ => FairCall w c s
  | .setMetadata _ _ => FairCall w c s
  | _ => True

/-- The steps considered. -/
def Orderly (s : Shared) : Happening → Prop
  | .call l call => ∀ lim, s.limiters l = some lim → call.Fair w c ⟨s.file, s.tick, lim⟩
  | .exit _ => True
  | .corrupt file => Plausible w c file s.tick

/-- The file will be rejected, or holds a quarantine of this boot begun at `t` or later. -/
def Quarantined (t : ℚ) (file : StateFile) : Prop :=
  file ≠ .absent ∧ ∀ p, file = .payload p → validatePayload p = .ok () →
    ∃ q, p.quarantine = some q ∧ Since c t q

/-- The file will be rejected. -/
def Rejected (file : StateFile) : Prop :=
  file ≠ .absent ∧ ∀ p, file = .payload p → validatePayload p ≠ .ok ()

variable {w c} {s s' : Shared} {k : ℕ} {t : ℚ} {A B : Prop} {L : ℕ → Prop}

/-! ## Calls -/

/-- What a call leaves behind that returns `r`, if it returns a reservation. -/
def Left (w : World) (c : Config) (k : ℕ) (t : ℚ) (A B : Prop) (r : Option ResetReservation)
    (s : Session) : Prop :=
  Held w c k t A B s ∧
    (A ∨ B → ∀ τ ∈ r.elim [] (reservedTime · s.lim), t + c.windowSeconds ≤ τ)

/-- A program that keeps what is held, and returns no reservation. -/
theorem wp_none_held {β : Type} {s : Session} {x : LProg β}
    (hx : wp x (fun _ => Held w c k t A B) (fun _ => Held w c k t A B) (Held w c k t A B) s) :
    wp (do let _ ← x; pure (none : Option ResetReservation)) (Left w c k t A B)
      (fun _ => Held w c k t A B) (Held w c k t A B) s := by
  rw [wp_bind]
  exact wp_mono hx (fun _ _ h => ⟨h, fun _ _ hτ => absurd hτ List.not_mem_nil⟩) (fun _ _ h => h) (fun _ h => h)

theorem wp_run_held (hw : w.Valid) (ht : t ≤ w.mono k) {s : Session} (h : Held w c k t A B s)
    (call : Call) (hnew : call = .construct → ¬A) (hfair : A ∨ B → call.Fair w c s) :
    wp (call.run w c) (Left w c k t A B) (fun _ => Held w c k t A B) (Held w c k t A B) s := by
  cases call with
  | construct =>
    have hA : ∀ s, Held w c k t False B s → Held w c k t A B s := fun s h =>
      h.mono (hnew rfl) id
    exact wp_none_held (wp_mono (keeps_load_held hw ht s (h.mono False.elim id)) (fun _ => hA)
      (fun _ => hA) hA)
  | reserve method =>
    rw [Call.run, wp_bind]
    refine wp_mono (wp_reserve_held (A := A) hw ht .inr .inl .stable (fun _ h => h.mono .inl id)
      h (fun _ _ => h) (fun s h => keeps_failClosed_held hw ht (by decide) s h)
      (wp_reloadForTransactionLocked_held hw ht (h.stable s (s.tick + 1) (Nat.le_succ _)) hfair))
      (fun _ _ h => ⟨h.toHeld, h.late⟩) (fun _ _ h => h) (fun _ h => h)
  | setMetadata key value => exact wp_none_held (keeps_setMetadata_held hw ht h hfair key value)
  | status => exact wp_none_held (keeps_status_held s h)
  | recentAttempts => exact wp_none_held (keeps_recentAttempts_held s h)

/-! ## Steps -/

/-- Since the instant `k`, the quarantine begun at `t` is kept: by the limiters
    of `L`, and on file, if `B` holds. -/
structure Kept (w : World) (c : Config) (k : ℕ) (t : ℚ) (L : ℕ → Prop) (B : Prop) (s : Shared) :
    Prop where
  new : Held w c k t False B ⟨s.file, s.tick, {}⟩
  lim : ∀ l lim, s.limiters l = some lim → Held w c k t (L l) B ⟨s.file, s.tick, lim⟩

/-- The steps that spare what is kept: the names in `L` are not given to new
    limiters; and where the file is to keep the quarantine, other contents are
    ones that will be rejected. -/
def Spares (L : ℕ → Prop) (B : Prop) : Happening → Prop
  | .call l .construct => ¬L l
  | .corrupt file => B → Rejected file
  | _ => True

variable {lim : Limiter}

/-- The file and the time are, for the others, as the session of one limiter leaves them. -/
theorem Held.other {n m : ℕ} {f f' : StateFile} {lim' : Limiter} {A' : Prop}
    (h : Held w c k t A B ⟨f, n, lim⟩) (h' : Held w c k t A' B ⟨f', m, lim'⟩) (hnm : n ≤ m) :
    Held w c k t A B ⟨f', m, lim⟩ := by
  have hm := h.stable _ m hnm
  exact ⟨⟨h'.timely.file, hm.timely.past, hm.timely.blocked, hm.timely.clear⟩, h'.tick, hm.lim,
    h'.file⟩

variable {file : StateFile}

/-- One call leaves what the others hold as it is. -/
theorem Kept.update (h : Kept w c k t L B s) {l : ℕ} {n : ℕ}
    {new : Option Limiter} (times : List ℚ) (hn : s.tick ≤ n)
    (h' : Held w c k t (L l) B ⟨file, n, lim⟩) (hnew : ∀ lim', new = some lim' → lim' = lim) :
    Kept w c k t L B ⟨file, n, Function.update s.limiters l new, times⟩ := by
  refine ⟨h.new.other h' hn, fun l' lim' hl' => ?_⟩
  change Function.update s.limiters l new l' = some lim' at hl'
  rcases eq_or_ne l' l with rfl | hne
  · rw [Function.update_self] at hl'
    rw [hnew lim' hl']
    exact h'
  · rw [Function.update_of_ne hne] at hl'
    exact (h.lim l' lim' hl').other h' hn

variable {call : Call}

/-- The limiter a call runs on holds what is kept. -/
theorem Kept.target (h : Kept w c k t L B s) {l : ℕ}
    (hlim : s.target l call = some lim) (hs : Spares L B (.call l call)) :
    Held w c k t (L l) B ⟨s.file, s.tick, lim⟩ := by
  cases call with
  | construct =>
    cases hlim
    exact h.new.mono hs id
  | reserve method | setMetadata key value | status | recentAttempts => exact h.lim l lim hlim

theorem Orderly.fair {l : ℕ} (h : Orderly w c s (.call l call))
    (hlim : s.target l call = some lim) : call.Fair w c ⟨s.file, s.tick, lim⟩ := by
  cases call with
  | construct | status | recentAttempts => exact trivial
  | reserve method | setMetadata key value => exact h lim hlim

/-- What a call does to what is kept, and to the reservations allowed. -/
theorem Kept.after (hw : w.Valid) (ht : t ≤ w.mono k) (h : Kept w c k t L B s) {l : ℕ}
    (ho : Orderly w c s (.call l call)) (hs : Spares L B (.call l call))
    (hstep : s.next w c (.call l call) = some s') :
    Kept w c k t L B s' ∧ ∃ new, s'.granted = new ++ s.granted ∧
      (L l ∨ B → ∀ τ ∈ new, t + c.windowSeconds ≤ τ) := by
  obtain ⟨lim, htarget, rfl⟩ := Option.map_eq_some_iff.1 hstep
  have hlim := h.target htarget hs
  have ht' : t ≤ w.mono s.tick := ht.trans (w.mono_monotone hlim.tick)
  -- Counted from the instant of the call, what is held tells that time passes in it.
  have hrun := wp_run_held hw ht' { hlim with tick := le_refl s.tick } call
    (fun hcall hL => by subst hcall; exact hs hL) fun _ => ho.fair htarget
  generalize hout : call.run w c ⟨s.file, s.tick, lim⟩ = out at *
  have hback : ∀ s₁ : Session, Held w c s.tick t (L l) B s₁ → Held w c k t (L l) B s₁ :=
    fun s₁ h₁ => { h₁ with tick := hlim.tick.trans h₁.tick }
  obtain ⟨r, s₁⟩ := out
  cases r with
  | ok r =>
    obtain ⟨h₁, hlate⟩ := wp_ok hrun hout
    exact ⟨h.update _ h₁.tick (hback s₁ h₁) fun _ h => (Option.some.inj h).symm, _, rfl, hlate⟩
  | raised e =>
    have h₁ := wp_raised hrun hout
    cases call with
    | construct => exact ⟨h.update _ h₁.tick (hback s₁ h₁) nofun, [], rfl, fun _ _ => nofun⟩
    | _ =>
      exact ⟨h.update _ h₁.tick (hback s₁ h₁) fun _ h => (Option.some.inj h).symm, [], rfl,
        fun _ _ => nofun⟩
  | halted =>
    have h₁ := wp_halted hrun hout
    exact ⟨h.update _ h₁.tick (hback s₁ h₁) nofun, [], rfl, fun _ _ => nofun⟩

/-- Other contents of the file. -/
theorem Held.withFile {s : Session} (h : Held w c k t A B s)
    (hp : Plausible w c file s.tick) (hB : B → Rejected file) :
    Held w c k t A B { s with file := file } := by
  refine ⟨⟨hp, h.timely.past, h.timely.blocked, h.timely.clear⟩, h.tick, h.lim, fun hB' => .inr ?_⟩
  exact ⟨(hB hB').1, fun p hp hv => absurd hv ((hB hB').2 p hp)⟩

theorem kept_step (hw : w.Valid) (ht : t ≤ w.mono k) (h : Kept w c k t L B s) {e : Happening}
    (ho : Orderly w c s e) (hs : Spares L B e) (hstep : (disturbed w c).step s e s') :
    Kept w c k t L B s' ∧ ∃ new, s'.granted = new ++ s.granted ∧
      (B → ∀ τ ∈ new, t + c.windowSeconds ≤ τ) := by
  cases e with
  | call l call =>
    obtain ⟨h', new, hnew, hlate⟩ := h.after hw ht ho hs hstep
    exact ⟨h', new, hnew, fun hB => hlate (.inr hB)⟩
  | exit l =>
    cases hstep
    refine ⟨⟨h.new, fun l' lim' hl' => ?_⟩, [], rfl, fun _ => nofun⟩
    change Function.update s.limiters l none l' = some lim' at hl'
    rcases eq_or_ne l' l with rfl | hne
    · rw [Function.update_self] at hl'
      cases hl'
    · rw [Function.update_of_ne hne] at hl'
      exact h.lim l' lim' hl'
  | corrupt file =>
    cases hstep
    exact ⟨⟨h.new.withFile ho hs, fun l lim hl => (h.lim l lim hl).withFile ho hs⟩, [], rfl,
      fun _ => nofun⟩

/-! ## Runs -/

/-- What is kept, from now on: a quarantine that the limiters of `L` hold, and the file. -/
theorem Kept.restart {L' : ℕ → Prop} {B' : Prop} {t' : ℚ} (h : Kept w c k t' L' B' s)
    (hlim : ∀ l lim, s.limiters l = some lim → L l → LimKept w c t ⟨s.file, s.tick, lim⟩)
    (hfile : B → Quarantined c t s.file) : Kept w c s.tick t L B s :=
  ⟨⟨h.new.timely, le_rfl, False.elim, fun hB => .inr (hfile hB)⟩, fun l lim hl =>
    ⟨(h.lim l lim hl).timely, le_rfl, hlim l lim hl, fun hB => .inr (hfile hB)⟩⟩

/-- The limiters, and the file, of every state reached are timely. -/
theorem kept_reach (hw : w.Valid) (h : (disturbed w c).Reach (Orderly w c) s) :
    Kept w c 0 (w.mono 0) (fun _ => False) False s := by
  refine Transition.Reach.induction (fun s hs => ?_) (fun s e s' hs ho hstep => ?_) h
  · obtain ⟨hnone, -, hfile⟩ := hs
    refine ⟨⟨⟨hfile, nofun, nofun, fun _ => rfl⟩, Nat.zero_le _, False.elim, False.elim⟩,
      fun l lim hl => ?_⟩
    rw [hnone l] at hl
    cases hl
  · refine (kept_step hw le_rfl hs ho ?_ hstep).1
    cases e with
    | call l call =>
      cases call with
      | construct => exact id
      | _ => exact trivial
    | exit l => exact trivial
    | corrupt file => exact False.elim

/-- What is never shortened of the quarantines of a state, in whatever happens after it. -/
structure NeverShortened (w : World) (c : Config) (s : Shared) : Prop where
  /-- A limiter in quarantine allows no reservation before the end of its window. -/
  held : ∀ l lim q, s.limiters l = some lim → lim.quarantine = some q → q.bootId = c.bootId →
    ∀ s₁, (disturbed w c).Leads (fun s e => Orderly w c s e ∧ e ≠ .call l .construct) s s₁ →
    ∀ call s₂, call ≠ .construct → Orderly w c s₁ (.call l call) →
      s₁.meet w c (.call l call) = some s₂ →
      ∃ new, s₂.granted = new ++ s₁.granted ∧
        ∀ τ ∈ new, q.monotonicTime + c.windowSeconds ≤ τ
  /-- Where the file holds a quarantine, or will be rejected, no limiter does,
      whatever becomes of the file that will be rejected. -/
  filed : ∀ t ≤ w.mono s.tick, Quarantined c t s.file →
    ∀ s₁, (disturbed w c).Leads
      (fun s e => Orderly w c s e ∧ ∀ file, e = .corrupt file → Rejected file) s s₁ →
      ∃ new, s₁.granted = new ++ s.granted ∧ ∀ τ ∈ new, t + c.windowSeconds ≤ τ
  /-- Reloading leaves in force the quarantine it finds more to remain of. -/
  reloaded : ∀ l lim ql p qd, s.limiters l = some lim → lim.quarantine = some ql →
    s.file = .payload p → validatePayload p = .ok () → p.quarantine = some qd →
    ∃ dirty s', reloadForTransactionLocked w c ⟨s.file, s.tick, lim⟩ = (.ok dirty, s') ∧
      ∃ n, s.tick ≤ n ∧ InForce w c n
        (if remaining c (w.wall (s.tick + 2)) (w.mono (s.tick + 3)) qd <
          remaining c (w.wall s.tick) (w.mono (s.tick + 1)) ql then ql else qd) s'.lim
  /-- A record from the future, where no quarantine is in force, starts one
      that lasts for the window, of a new limiter and of one that reserves. -/
  uncertain : ∀ l call lim p r, (call = .construct ∨ ∃ method,
      ¬(method = "" ∨ 64 < method.length) ∧ call = .reserve method) →
    s.target l call = some lim → lim.quarantine = none →
    lim.futureRecordsMayBeDiscarded = false → s.file = .payload p → validatePayload p = .ok () →
    p.quarantine = none → r ∈ p.records →
    recordAge c (w.wall (s.tick + 1)) (w.mono (s.tick + 2)) r < -clockSkewTolerance →
    ∀ s₁, s.meet w c (.call l call) = some s₁ →
      (∀ lim₁, s₁.limiters l = some lim₁ →
        LimKept w c (w.mono s.tick) ⟨s₁.file, s₁.tick, lim₁⟩) ∧
      ∃ new, s₁.granted = new ++ s.granted ∧ ∀ τ ∈ new, w.mono s.tick + c.windowSeconds ≤ τ

theorem Kept.never_held (hw : w.Valid) (h : Kept w c 0 (w.mono 0) (fun _ => False) False s) {l : ℕ}
    {q : Quarantine} (hl : s.limiters l = some lim)
    (hq : lim.quarantine = some q) (hown : q.bootId = c.bootId) {s₁ s₂ : Shared}
    (hleads : (disturbed w c).Leads (fun s e => Orderly w c s e ∧ e ≠ .call l .construct) s s₁)
    (hcall : call ≠ .construct) (ho : Orderly w c s₁ (.call l call))
    (hstep : s₁.meet w c (.call l call) = some s₂) :
    ∃ new, s₂.granted = new ++ s₁.granted ∧ ∀ τ ∈ new, q.monotonicTime + c.windowSeconds ≤ τ := by
  have ht : q.monotonicTime ≤ w.mono s.tick := (h.lim l lim hl).timely.past q hq hown
  have hspares : ∀ e, e ≠ .call l .construct → Spares (· = l) False e := fun e he => by
    cases e with
    | call l' call' =>
      cases call' with
      | construct => exact fun hl' => he (hl' ▸ rfl)
      | _ => exact trivial
    | exit l' => exact trivial
    | corrupt file => exact False.elim
  have hstart : Kept w c s.tick q.monotonicTime (· = l) False s :=
    h.restart (fun l' lim' hl' heq => .inr ⟨q, by
      obtain rfl := Option.some.inj (hl.symm.trans (heq ▸ hl'))
      exact hq, hown, le_rfl⟩) False.elim
  have hkept : Kept w c s.tick q.monotonicTime (· = l) False s₁ :=
    hleads.invariant (fun s e s' hs he hstep => (kept_step hw ht hs he.1 (hspares e he.2) hstep).1)
      hstart
  obtain ⟨-, new, hnew, hlate⟩ := hkept.after hw ht ho
    (hspares _ fun heq => hcall (by cases heq; rfl)) hstep
  exact ⟨new, hnew, hlate (.inl rfl)⟩

theorem Kept.never_filed (hw : w.Valid) (h : Kept w c 0 (w.mono 0) (fun _ => False) False s)
    (ht : t ≤ w.mono s.tick) (hq : Quarantined c t s.file)
    (hleads : (disturbed w c).Leads
      (fun s e => Orderly w c s e ∧ ∀ file, e = .corrupt file → Rejected file) s s') :
    ∃ new, s'.granted = new ++ s.granted ∧ ∀ τ ∈ new, t + c.windowSeconds ≤ τ := by
  have hstart : Kept w c s.tick t (fun _ => False) True s :=
    h.restart (fun _ _ _ => False.elim) fun _ => hq
  have hspares : ∀ e, (∀ file, e = .corrupt file → Rejected file) →
      Spares (fun _ => False) True e := fun e he => by
    cases e with
    | call l' call' =>
      cases call' with
      | construct => exact id
      | _ => exact trivial
    | exit l' => exact trivial
    | corrupt file => exact fun _ => he file rfl
  refine (hleads.invariant (I := fun s' : Shared => Kept w c s.tick t (fun _ => False) True s' ∧
    ∃ new, s'.granted = new ++ s.granted ∧ ∀ τ ∈ new, t + c.windowSeconds ≤ τ)
    (fun s₁ e s₂ hs he hstep => ?_) ⟨hstart, [], rfl, nofun⟩).2
  obtain ⟨hs₁, new₁, hnew₁, hlate₁⟩ := hs
  obtain ⟨hs₂, new₂, hnew₂, hlate₂⟩ := kept_step hw ht hs₁ he.1 (hspares e he.2) hstep
  refine ⟨hs₂, new₂ ++ new₁, ?_, fun τ hτ => ?_⟩
  · rw [hnew₂, hnew₁, List.append_assoc]
  · exact (List.mem_append.1 hτ).elim (hlate₂ trivial τ) (hlate₁ τ)

/-- The calls that find a record from the future. -/
theorem wp_run_uncertain (hw : w.Valid) {s : Session} (h : Held w c 0 (w.mono 0) A B s)
    (hcall : call = .construct ∨ ∃ method,
      ¬(method = "" ∨ 64 < method.length) ∧ call = .reserve method)
    {p : Payload} (hq : s.lim.quarantine = none)
    (hd : s.lim.futureRecordsMayBeDiscarded = false) (hp : s.file = .payload p)
    (hv : validatePayload p = .ok ()) (hqd : p.quarantine = none) {r : Record} (hr : r ∈ p.records)
    (hage : recordAge c (w.wall (s.tick + 1)) (w.mono (s.tick + 2)) r < -clockSkewTolerance) :
    wp (call.run w c) (Left w c s.tick (w.mono s.tick) True False) (fun _ _ => False)
      (fun _ => True) s := by
  have hstart : Held w c s.tick (w.mono s.tick) False False s :=
    ⟨h.timely, le_rfl, False.elim, False.elim⟩
  rcases hcall with rfl | ⟨method, hm, rfl⟩
  · rw [Call.run, wp_bind]
    exact wp_mono (wp_load_uncertain hw le_rfl hstart hp hv hqd hr hage)
      (fun _ _ h => ⟨h, fun _ _ hτ => absurd hτ List.not_mem_nil⟩) (fun _ _ h => h) (fun _ h => h)
  · rw [Call.run, wp_bind]
    exact wp_mono (wp_reserve_uncertain hw le_rfl hstart hq hd hp hv hqd hr hage hm)
      (fun _ _ h => ⟨h.toHeld, fun _ => h.late trivial⟩) (fun _ _ h => h) (fun _ h => h)

/-- The boot and the time of a quarantine. -/
def Quarantine.begun (q : Quarantine) : String × ℚ := (q.bootId, q.monotonicTime)

/-- The quarantine a limiter holds. -/
def Shared.heldBy (s : Shared) (l : ℕ) : Option (String × ℚ) :=
  (s.limiters l).bind fun lim => lim.quarantine.map Quarantine.begun

/-- The quarantine on file. -/
def Shared.onFile (s : Shared) : Option (String × ℚ) :=
  match s.file with
  | .payload p => p.quarantine.map Quarantine.begun
  | _ => none

/-- Whether there is a payload on file. -/
def Shared.filed (s : Shared) : Bool :=
  match s.file with
  | .payload _ => true
  | _ => false

theorem pacedId_ne (_ : ℕ) : "0123456789abcdef0123456789abcdef" ≠ "" := by decide

/-- A world in which the locks do not fail. -/
def pacedWorld (mono : ℕ → ℕ) (wall : ℕ → ℚ) (saveFault : ℕ → Fault) (h : Monotone mono) :
    World where
  mono n := mono n
  wall := wall
  uuid _ := "0123456789abcdef0123456789abcdef"
  lockFault _ := .none
  unlockFault _ := .none
  saveFault := saveFault
  mono_monotone _ _ hle := Nat.cast_le.2 (h hle)
  uuid_ne := pacedId_ne

/-- A hundred seconds pass between any two instants. -/
def slowWorld : World :=
  pacedWorld (fun n => 100 * n) (fun n => 1000000 + 100 * n) (fun _ => .none)
    fun _ _ h => Nat.mul_le_mul_left 100 h

/-- The first writes fail. A limiter is held up in its reload for a thousand seconds. -/
def pausedWorld : World :=
  pacedWorld (fun n => n + (if 40 ≤ n then 1000 else 0) + (if 55 ≤ n then 2555 else 0))
    (fun n => 1000000 + n) (fun n => if n < 30 then .raisesBefore else .none) fun m n h => by
    dsimp only
    split_ifs <;> omega

/-- The first writes fail. The wall clock is set back, and forward. -/
def setWorld : World :=
  pacedWorld id (fun n => if n < 20 then 1000000 + n else if n < 37 then 995000 + n
    else 1005000 + n) (fun n => if n < 20 then .raisesBefore else .none) fun _ _ h => h

/-- The first writes fail. The wall clock cannot be read for a while. -/
def brokenWorld : World :=
  pacedWorld id (fun n => if 16 ≤ n ∧ n ≤ 18 then -1 else 1000000 + n)
    (fun n => if n < 14 then .raisesBefore else .none) fun _ _ h => h

/-- A file with a quarantine of another boot, begun a thousand seconds ago by the wall clock. -/
def foreignFile : StateFile :=
  .payload ⟨1, [], 0, .empty, some ⟨"persistence_error", 999000, 5, "feedf00d"⟩⟩

/-- The limiters of a file, before there are any. -/
def Shared.start (file : StateFile) : Shared := ⟨file, 0, fun _ => none, []⟩

theorem init_start {w : World} {c : Config} (h : Plausible w c file 0) :
    (disturbed w c).init (.start file) := ⟨fun _ => rfl, rfl, h⟩

theorem plausible_absent {w : World} {c : Config} {n : ℕ} : Plausible w c .absent n := nofun

theorem plausible_foreign {w : World} {n : ℕ} : Plausible w twoAnHour foreignFile n := by
  rintro p q ⟨⟩ - ⟨⟩ hown
  exact absurd hown (by decide)

/-- What is observed of a state, and of one a run leads to from there. -/
theorem observed {w : World} {c : Config} (hfile : Plausible w c file 0)
    (before after : List Happening) {α β : Type} (f : Shared → α) (g : Shared → β) {a : α} {b : β}
    (h : ((before.foldlM (Shared.meet w c) (.start file)).bind fun s =>
      (after.foldlM (Shared.meet w c) s).map fun s' => (f s, g s')) = some (a, b)) :
    ∃ s s', (disturbed w c).Reachable s ∧ f s = a ∧
      (disturbed w c).Leads (fun _ _ => True) s s' ∧ g s' = b := by
  obtain ⟨s, hs, h⟩ := Option.bind_eq_some_iff.1 h
  obtain ⟨s', hs', h⟩ := Option.map_eq_some_iff.1 h
  obtain ⟨rfl, rfl⟩ := Prod.mk.inj h
  exact ⟨s, s', .foldlM (.init (init_start hfile)) hs, rfl,
    Transition.Leads.foldlM hs', rfl⟩

theorem valid_pausedWorld : pausedWorld.Valid :=
  ⟨fun n => by dsimp only [pausedWorld, pacedWorld]; positivity, fun n => Nat.cast_nonneg _⟩

end ReticulumPi.Recovery
