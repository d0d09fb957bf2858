import Mathlib.Data.List.Basic
import Mathlib.Data.Nat.Basic
import ReticulumPi.Lib.Transition

/-!
# Generations of the serial interface

The gateway opens the serial interface of the radio again and again. Each
opening gets a generation of its own; the interface is first a candidate, and
is published as the listener or, in serial mode, as the mesh interface. What is
taken down is made stale by counting the open generation on. A command on an
interface asks whether its generation is current (`Fence.isCurrent`).

A `Fence` is what the gateway keeps of this under its lock, `Op` the locked
sections that change it. A current interface stops being current only when its
generation is over, and then for good (`Fence.Sound.lost`).
-/

namespace ReticulumPi.Gateway

open List

/-- An interface, known by a number, and the generation it was opened in. -/
abbrev Opened := ℕ × ℕ

/-- What is kept under the lock; in MQTT mode, the mesh interface is none of these. -/
structure Fence where
  active : Bool := true
  serialMode : Bool
  openGeneration : ℕ := 0
  activeGeneration : ℕ := 0
  listener : Option ℕ := none
  meshInterface : Option ℕ := none
  probeCandidate : Option Opened := none
  /-- The generations whose constructors have been claimed and not been decided on. -/
  constructing : List ℕ := []
  /-- All interfaces that became candidates. -/
  opened : List Opened := []
  /-- The health probes that set a candidate, and the candidate each found. -/
  probes : List (Opened × Option Opened) := []
  deriving DecidableEq

namespace Fence

variable (f : Fence)

/-- The interface is published. -/
def published (iface : ℕ) : Bool :=
  f.listener = some iface || f.serialMode && f.meshInterface = some iface

/-- `_serial_generation_is_current` -/
def isCurrent (p : Opened) : Bool :=
  f.active && p.2 = f.activeGeneration && p.2 = f.openGeneration &&
    (f.published p.1 || f.probeCandidate = some p)

/-- Nothing refers to the interface. -/
def Detached (iface : ℕ) : Prop :=
  f.listener ≠ some iface ∧ f.meshInterface ≠ some iface ∧
    ∀ p ∈ f.probeCandidate, p.1 ≠ iface
deriving Decidable

/-- The locked sections. -/
inductive Op
  /-- `_open_serial_interface_result` finds nothing open and takes a generation. -/
  | claim
  /-- It stops waiting for the constructor. -/
  | timeout (generation : ℕ)
  /-- The constructor has raised. -/
  | fail (generation : ℕ)
  /-- The constructor has returned in time. -/
  | open (p : Opened)
  /-- The owner of the candidate publishes it: the listener, or the connection in serial mode. -/
  | publishListener (p : Opened)
  | publishMesh (p : Opened)
  /-- `_close_mesh_interface` -/
  | closeMesh
  /-- `_cleanup_after_reset` -/
  | cleanupAfterReset
  /-- `_poison_serial_generation` -/
  | poison (p : Opened)
  /-- The thread of the listener leaves it. -/
  | closeListener (iface : ℕ)
  /-- `stop`, first and second section -/
  | stop
  | stopDetach
  /-- `_probe_device_health`, at its beginning and its end -/
  | beginProbe (p : Opened)
  | endProbe (p : Opened) (previous : Option Opened)
  deriving DecidableEq

/-- The candidate may be published. -/
def publishable (p : Opened) : Bool :=
  f.active && p.2 = f.activeGeneration && p.2 = f.openGeneration && f.probeCandidate = some p

/-- What a section makes of it; `none` where the section is not entered there. The generation that
    an interface is poisoned in is its own, unless nothing refers to it any more. -/
def apply : Op → Option Fence
  | .claim =>
    if f.listener = none ∧ (f.serialMode = true → f.meshInterface = none) ∧
        f.probeCandidate = none then
      some { f with
        openGeneration := f.openGeneration + 1
        constructing := (f.openGeneration + 1) :: f.constructing }
    else none
  | .timeout generation =>
    if generation ∈ f.constructing then
      some { f with
        openGeneration := if generation = f.openGeneration then f.openGeneration + 1 else
          f.openGeneration
        constructing := f.constructing.erase generation }
    else none
  | .fail generation =>
    if generation ∈ f.constructing then
      some { f with constructing := f.constructing.erase generation }
    else none
  | .open p =>
    if p.2 ∈ f.constructing ∧ ∀ q ∈ f.opened, q.1 ≠ p.1 then
      if f.active = true ∧ p.2 = f.openGeneration then
        some { f with
          activeGeneration := p.2, probeCandidate := some p, opened := p :: f.opened
          constructing := f.constructing.erase p.2 }
      else some { f with constructing := f.constructing.erase p.2 }
    else none
  | .publishListener p =>
    if f.publishable p = true then some { f with listener := some p.1, probeCandidate := none }
    else none
  | .publishMesh p =>
    if f.serialMode = true ∧ f.publishable p = true then
      some { f with meshInterface := some p.1, probeCandidate := none }
    else none
  | .closeMesh =>
    if f.serialMode then
      some { f with
        meshInterface := none, probeCandidate := none, openGeneration := f.openGeneration + 1 }
    else some f
  | .cleanupAfterReset =>
    some { f with
      listener := none, probeCandidate := none, openGeneration := f.openGeneration + 1 }
  | .poison p =>
    if p ∈ f.opened ∨ f.Detached p.1 then
      some { f with
        meshInterface := if f.meshInterface = some p.1 then none else f.meshInterface
        listener := if f.listener = some p.1 then none else f.listener
        probeCandidate := if f.probeCandidate = some p then none else f.probeCandidate
        openGeneration := if p.2 = f.activeGeneration ∧ p.2 = f.openGeneration then
          f.openGeneration + 1 else f.openGeneration }
    else none
  | .closeListener iface =>
    if f.listener = some iface then
      some { f with listener := none, openGeneration := f.openGeneration + 1 }
    else some f
  | .stop => some { f with active := false, openGeneration := f.openGeneration + 1 }
  | .stopDetach =>
    if f.active then none else some { f with listener := none, probeCandidate := none }
  | .beginProbe p =>
    if p ∈ f.opened then
      if f.published p.1 = true ∨ (f.probeCandidate ≠ none ∧ f.probeCandidate ≠ some p) then some f
      else
        some { f with probeCandidate := some p, probes := (p, f.probeCandidate) :: f.probes }
    else none
  | .endProbe p previous =>
    if (p, previous) ∈ f.probes then
      some { f with
        probeCandidate := if f.probeCandidate = some p then previous else f.probeCandidate
        probes := f.probes.erase (p, previous) }
    else none

/-- A start: nothing is open. -/
def start (serialMode : Bool) : Fence where
  serialMode := serialMode

/-! ## What holds throughout -/

/-- The generation is over. -/
def Over (generation : ℕ) : Prop := f.active = false ∨ generation < f.openGeneration

structure Sound : Prop where
  active_le : f.activeGeneration ≤ f.openGeneration
  opened_le : ∀ p ∈ f.opened, p.2 ≤ f.activeGeneration
  constructing_le : ∀ g ∈ f.constructing, g ≤ f.openGeneration
  constructing_nodup : f.constructing.Nodup
  /-- A generation under construction, if it is not over, is newer than the active one, and nothing
      is published meanwhile. -/
  claimed : f.openGeneration ∈ f.constructing →
    f.activeGeneration < f.openGeneration ∧ f.listener = none ∧ f.meshInterface = none
  candidate_opened : ∀ p ∈ f.probeCandidate, p ∈ f.opened
  listener_opened : ∀ iface ∈ f.listener, (iface, f.activeGeneration) ∈ f.opened
  mesh_opened : ∀ iface ∈ f.meshInterface, (iface, f.activeGeneration) ∈ f.opened
  mesh_serial : f.meshInterface ≠ none → f.serialMode = true
  opened_unique : ∀ p ∈ f.opened, ∀ q ∈ f.opened, p.1 = q.1 ∨ p.2 = q.2 → p = q
  /-- The interface of the active generation stays in place until the generation is over. -/
  live : ∀ p ∈ f.opened, p.2 = f.activeGeneration → f.Over p.2 ∨
    f.published p.1 = true ∨ f.probeCandidate = some p
  probing : ∀ q ∈ f.probes, q.1 ∈ f.opened ∧ (q.2 = some q.1 ∨ q.2 = none ∧ f.Over q.1.2)

variable {f} {f' : Fence} {p : Opened} {g : ℕ}

theorem Over.mono (h : f.Over g) (hactive : f'.active = true → f.active = true)
    (hopen : f.openGeneration ≤ f'.openGeneration) : f'.Over g := by
  rcases h with h | h
  · cases ha : f'.active with
    | false => exact .inl ha
    | true => rw [hactive ha] at h; cases h
  · exact .inr (Nat.lt_of_lt_of_le h hopen)

/-- An interface is still there, or there is none. -/
def Kept {α : Type} (o o' : Option α) : Prop := o' = none ∨ o' = o

theorem Kept.mem {α : Type} {o o' : Option α} (h : Kept o o') {a : α} (ha : a ∈ o') : a ∈ o := by
  rcases h with rfl | rfl
  · cases ha
  · exact ha

/-- The section takes interfaces down, or forgets generations under construction or probes. -/
structure Shrinks (f f' : Fence) : Prop where
  active : f'.active = true → f.active = true
  serialMode : f'.serialMode = f.serialMode
  openGeneration : f.openGeneration ≤ f'.openGeneration
  activeGeneration : f'.activeGeneration = f.activeGeneration
  listener : Kept f.listener f'.listener
  meshInterface : Kept f.meshInterface f'.meshInterface
  probeCandidate : Kept f.probeCandidate f'.probeCandidate
  constructing : f'.constructing.Sublist f.constructing
  opened : f'.opened = f.opened
  probes : ∀ q ∈ f'.probes, q ∈ f.probes

variable (h : f.Sound)
include h

/-- Such a section is sound if it counts the open generation on, or leaves the interface of the
    active generation in place. -/
theorem Sound.shrink (hs : f.Shrinks f')
    (hlive : f.openGeneration < f'.openGeneration ∨ ∀ p ∈ f.opened, p.2 = f.activeGeneration →
      f.published p.1 = true ∨ f.probeCandidate = some p →
        f'.Over p.2 ∨ f'.published p.1 = true ∨ f'.probeCandidate = some p) : f'.Sound where
  active_le := by
    have := h.active_le
    have := hs.openGeneration
    rw [hs.activeGeneration]
    omega
  opened_le := by
    rw [hs.opened, hs.activeGeneration]
    exact h.opened_le
  constructing_le g hg :=
    Nat.le_trans (h.constructing_le g (hs.constructing.subset hg)) hs.openGeneration
  constructing_nodup := h.constructing_nodup.sublist hs.constructing
  claimed hg := by
    have hg := hs.constructing.subset hg
    have heq : f'.openGeneration = f.openGeneration :=
      Nat.le_antisymm (h.constructing_le _ hg) hs.openGeneration
    rw [heq] at hg ⊢
    obtain ⟨hlt, hlistener, hmesh⟩ := h.claimed hg
    refine ⟨by rwa [hs.activeGeneration], ?_, ?_⟩
    · exact hs.listener.elim id fun heq => heq.trans hlistener
    · exact hs.meshInterface.elim id fun heq => heq.trans hmesh
  candidate_opened p hp := by
    rw [hs.opened]
    exact h.candidate_opened p (hs.probeCandidate.mem hp)
  listener_opened i hi := by
    rw [hs.opened, hs.activeGeneration]
    exact h.listener_opened i (hs.listener.mem hi)
  mesh_opened i hi := by
    rw [hs.opened, hs.activeGeneration]
    exact h.mesh_opened i (hs.meshInterface.mem hi)
  mesh_serial hmesh := by
    rw [hs.serialMode]
    exact h.mesh_serial fun hnone => hmesh (hs.meshInterface.elim id fun heq => heq.trans hnone)
  opened_unique := by
    rw [hs.opened]
    exact h.opened_unique
  live p hp heq := by
    rw [hs.opened] at hp
    rw [hs.activeGeneration] at heq
    rcases h.live p hp heq with hover | hplace
    · exact .inl (hover.mono hs.active hs.openGeneration)
    rcases hlive with hlt | hlive
    · have := h.active_le
      exact .inl (.inr (by omega))
    · exact hlive p hp heq hplace
  probing q hq := by
    obtain ⟨hopened, hprevious⟩ := h.probing q (hs.probes q hq)
    rw [hs.opened]
    exact ⟨hopened, hprevious.imp_right fun ⟨hnone, hover⟩ =>
      ⟨hnone, hover.mono hs.active hs.openGeneration⟩⟩

/-- A section that leaves the fence as it is but for what is under construction. -/
theorem Sound.forget (g : ℕ) : Sound { f with constructing := f.constructing.erase g } := by
  refine h.shrink ⟨id, rfl, le_rfl, rfl, .inr rfl, .inr rfl, .inr rfl, erase_sublist, rfl,
    fun _ => id⟩ (.inr fun p _ _ hplace => .inr hplace)

/-- A section that takes down what it likes and counts the open generation on. -/
theorem Sound.takeDown {listener meshInterface : Option ℕ}
    {probeCandidate : Option Opened} {active : Bool} (hactive : active = true → f.active = true)
    (hlistener : Kept f.listener listener) (hmesh : Kept f.meshInterface meshInterface)
    (hcandidate : Kept f.probeCandidate probeCandidate) :
    Sound { f with
      active := active, listener := listener, meshInterface := meshInterface
      probeCandidate := probeCandidate, openGeneration := f.openGeneration + 1 } :=
  h.shrink ⟨hactive, rfl, Nat.le_succ _, rfl, hlistener, hmesh, hcandidate, .refl _, rfl,
    fun _ => id⟩ (.inl (Nat.lt_succ_self _))

/-- A generation is taken while nothing is published. -/
theorem Sound.claim (hlistener : f.listener = none)
    (hmesh : f.serialMode = true → f.meshInterface = none) :
    Sound { f with
      openGeneration := f.openGeneration + 1
      constructing := (f.openGeneration + 1) :: f.constructing } where
  active_le := Nat.le_succ_of_le h.active_le
  opened_le := h.opened_le
  constructing_le g hg := by
    rcases mem_cons.1 hg with rfl | hg
    · exact Nat.le_refl _
    · exact Nat.le_succ_of_le (h.constructing_le g hg)
  constructing_nodup := nodup_cons.2
    ⟨fun hmem => Nat.not_succ_le_self _ (h.constructing_le _ hmem), h.constructing_nodup⟩
  claimed _ := by
    refine ⟨Nat.lt_succ_of_le h.active_le, hlistener, ?_⟩
    by_contra hne
    exact hne (hmesh (h.mesh_serial hne))
  candidate_opened := h.candidate_opened
  listener_opened := h.listener_opened
  mesh_opened := h.mesh_opened
  mesh_serial := h.mesh_serial
  opened_unique := h.opened_unique
  live p hp _ := .inl (.inr (Nat.lt_succ_of_le (Nat.le_trans (h.opened_le p hp) h.active_le)))
  probing q hq := by
    obtain ⟨hopened, hprevious⟩ := h.probing q hq
    exact ⟨hopened, hprevious.imp_right fun ⟨hnone, hover⟩ =>
      ⟨hnone, hover.mono id (Nat.le_succ _)⟩⟩

/-- The interface of the generation under construction becomes the candidate. -/
theorem Sound.open (hp : p.2 ∈ f.constructing) (hfresh : ∀ q ∈ f.opened, q.1 ≠ p.1)
    (hgen : p.2 = f.openGeneration) :
    Sound { f with
      activeGeneration := p.2, probeCandidate := some p, opened := p :: f.opened
      constructing := f.constructing.erase p.2 } := by
  obtain ⟨hlt, hlistener, hmesh⟩ := h.claimed (hgen ▸ hp)
  refine ⟨Nat.le_of_eq hgen, fun q hq => ?_, fun g hg => ?_, h.constructing_nodup.erase _, fun hg => ?_,
    fun q hq => ?_, fun i hi => ?_, fun i hi => ?_, h.mesh_serial, fun q hq q' hq' heq => ?_,
    fun q hq heq => ?_, fun q hq => ?_⟩
  · rcases mem_cons.1 hq with rfl | hq
    · exact Nat.le_refl _
    · have := h.opened_le q hq
      change q.2 ≤ p.2
      omega
  · exact h.constructing_le g (mem_of_mem_erase hg)
  · -- No other constructor has the generation.
    change f.openGeneration ∈ f.constructing.erase p.2 at hg
    rw [hgen] at hg
    exact absurd hg h.constructing_nodup.not_mem_erase
  · cases hq
    exact mem_cons_self
  · change i ∈ f.listener at hi
    rw [hlistener] at hi
    cases hi
  · change i ∈ f.meshInterface at hi
    rw [hmesh] at hi
    cases hi
  · have hnew : ∀ q ∈ f.opened, ¬(q.1 = p.1 ∨ q.2 = p.2) := fun q hq heq => by
      have := h.opened_le q hq
      exact heq.elim (hfresh q hq) fun heq => by omega
    rcases mem_cons.1 hq with hq | hold
    · rcases mem_cons.1 hq' with hq' | hold'
      · exact hq.trans hq'.symm
      · exact absurd (hq ▸ heq.imp Eq.symm Eq.symm) (hnew q' hold')
    · rcases mem_cons.1 hq' with hq' | hold'
      · exact absurd (hq' ▸ heq) (hnew q hold)
      · exact h.opened_unique q hold q' hold' heq
  · change q.2 = p.2 at heq
    rcases mem_cons.1 hq with rfl | hq
    · exact .inr (.inr rfl)
    · have := h.opened_le q hq
      omega
  · obtain ⟨hopened, hprevious⟩ := h.probing q hq
    exact ⟨mem_cons_of_mem _ hopened, hprevious⟩

/-- The candidate is published. -/
theorem Sound.publish (hp : f.publishable p = true) {listener meshInterface : Option ℕ}
    (hplace : listener = some p.1 ∧ meshInterface = f.meshInterface ∨
      listener = f.listener ∧ meshInterface = some p.1 ∧ f.serialMode = true) :
    Sound { f with
      listener := listener, meshInterface := meshInterface, probeCandidate := none } := by
  simp only [publishable, Bool.and_eq_true, decide_eq_true_eq] at hp
  obtain ⟨⟨⟨-, hactive⟩, hopen⟩, hcandidate⟩ := hp
  have hopened : (p.1, f.activeGeneration) ∈ f.opened := hactive ▸ h.candidate_opened p hcandidate
  refine ⟨h.active_le, h.opened_le, h.constructing_le, h.constructing_nodup, fun hg => ?_,
    nofun, fun i hi => ?_, fun i hi => ?_, fun hne => ?_, h.opened_unique, fun q hq heq => ?_,
    h.probing⟩
  · -- The generation is that of the candidate, so it is not under construction.
    have hlt := (h.claimed hg).1
    omega
  · change i ∈ listener at hi
    rcases hplace with ⟨rfl, -⟩ | ⟨rfl, -, -⟩
    · cases hi
      exact hopened
    · exact h.listener_opened i hi
  · change i ∈ meshInterface at hi
    rcases hplace with ⟨-, rfl⟩ | ⟨-, rfl, -⟩
    · exact h.mesh_opened i hi
    · cases hi
      exact hopened
  · rcases hplace with ⟨-, rfl⟩ | ⟨-, -, hserial⟩
    · exact h.mesh_serial hne
    · exact hserial
  · -- The candidate is the interface of the active generation.
    obtain rfl := h.opened_unique q hq p (h.candidate_opened p hcandidate)
      (.inr (heq.trans hactive.symm))
    refine .inr (.inl ?_)
    rcases hplace with ⟨rfl, -⟩ | ⟨-, rfl, hserial⟩ <;> simp [published, *]

/-- A probe makes an interface that is not published the candidate, if there is none. -/
theorem Sound.beginProbe (hp : p ∈ f.opened) (hpub : ¬f.published p.1 = true)
    (hcandidate : f.probeCandidate = none ∨ f.probeCandidate = some p) :
    Sound { f with probeCandidate := some p, probes := (p, f.probeCandidate) :: f.probes } where
  active_le := h.active_le
  opened_le := h.opened_le
  constructing_le := h.constructing_le
  constructing_nodup := h.constructing_nodup
  claimed := h.claimed
  candidate_opened q hq := by
    cases hq
    exact hp
  listener_opened := h.listener_opened
  mesh_opened := h.mesh_opened
  mesh_serial := h.mesh_serial
  opened_unique := h.opened_unique
  live q hq heq := by
    rcases h.live q hq heq with hover | hplace | hcand
    · exact .inl hover
    · exact .inr (.inl hplace)
    · rcases hcandidate with hnone | hsome
      · rw [hnone] at hcand
        cases hcand
      · exact .inr (.inr (hsome ▸ hcand))
  probing q hq := by
    rcases mem_cons.1 hq with rfl | hq
    · refine ⟨hp, ?_⟩
      rcases hcandidate with hnone | hsome
      · -- The interface is not in place, so its generation is over.
        refine .inr ⟨hnone, ?_⟩
        have hle := h.opened_le p hp
        have hactive := h.active_le
        by_cases heq : p.2 = f.activeGeneration
        · rcases h.live p hp heq with hover | hplace | hcand
          · exact hover
          · exact absurd hplace hpub
          · rw [hnone] at hcand
            cases hcand
        · have hlt : p.2 < f.openGeneration := by omega
          exact .inr hlt
      · exact .inl hsome
    · exact h.probing q hq

/-- A probe gives the candidate back that it found. -/
theorem Sound.endProbe {previous : Option Opened} (hp : (p, previous) ∈ f.probes) : Sound { f with
      probeCandidate := if f.probeCandidate = some p then previous else f.probeCandidate
      probes := f.probes.erase (p, previous) } := by
  obtain ⟨-, hprevious⟩ := h.probing _ hp
  refine h.shrink ⟨id, rfl, Nat.le_refl _, rfl, .inr rfl, .inr rfl, ?_, .refl _, rfl,
    fun q hq => mem_of_mem_erase hq⟩ (.inr fun q hq heq hplace => ?_)
  · change Kept _ (ite _ _ _)
    split_ifs with hcand
    · exact hprevious.elim (fun hsome => .inr (hsome.trans hcand.symm)) fun hnone => .inl hnone.1
    · exact .inr rfl
  · rcases hplace with hplace | hcand
    · exact .inr (.inl hplace)
    · by_cases hqp : q = p
      · subst hqp
        rcases hprevious with hsome | ⟨-, hover⟩
        · exact .inr (.inr (by rw [if_pos hcand]; exact hsome))
        · exact .inl hover
      · have hne : ¬f.probeCandidate = some p := fun hcand' =>
          hqp (Option.some.inj (hcand.symm.trans hcand'))
        exact .inr (.inr (by rw [if_neg hne]; exact hcand))

/-- An interface is taken down in its own generation, or it is not in place. -/
theorem Sound.poison (hp : p ∈ f.opened ∨ f.Detached p.1) : Sound { f with
      meshInterface := if f.meshInterface = some p.1 then none else f.meshInterface
      listener := if f.listener = some p.1 then none else f.listener
      probeCandidate := if f.probeCandidate = some p then none else f.probeCandidate
      openGeneration := if p.2 = f.activeGeneration ∧ p.2 = f.openGeneration then
        f.openGeneration + 1 else f.openGeneration } := by
  have hkept : ∀ {α : Type} (o : Option α) (c : Prop) [Decidable c],
      Kept o (if c then none else o) := by
    intro α o c _
    split_ifs
    · exact .inl rfl
    · exact .inr rfl
  refine h.shrink ⟨id, rfl, ?_, rfl, hkept _ _, hkept _ _, hkept _ _, .refl _, rfl,
    fun _ => id⟩ ?_
  · change f.openGeneration ≤ ite _ _ _
    split_ifs
    · exact Nat.le_succ _
    · exact Nat.le_refl _
  · by_cases hgen : p.2 = f.activeGeneration ∧ p.2 = f.openGeneration
    · rw [if_pos hgen]
      exact .inl (Nat.lt_succ_self _)
    · rw [if_neg hgen]
      refine .inr fun q hq heq hplace => ?_
      by_cases hqp : q.1 = p.1
      · rcases hp with hp | ⟨hlistener, hmesh, hcandidate⟩
        · obtain rfl := h.opened_unique q hq p hp (.inl hqp)
          have hle := h.opened_le q hq
          have hactive := h.active_le
          have hlt : q.2 < f.openGeneration := by
            have hne : q.2 ≠ f.openGeneration := fun hopen => hgen ⟨heq, hopen⟩
            omega
          exact .inl (.inr hlt)
        · rw [← hqp] at hlistener hmesh hcandidate
          rcases hplace with hplace | hplace
          · simp [published, hlistener, hmesh] at hplace
          · exact absurd rfl (hcandidate q hplace)
      · have hne : ¬some q.1 = some p.1 := fun hsome => hqp (Option.some.inj hsome)
        rcases hplace with hplace | hplace
        · refine .inr (.inl ?_)
          simp only [published, Bool.or_eq_true, Bool.and_eq_true, decide_eq_true_eq] at hplace ⊢
          rcases hplace with hplace | ⟨hserial, hplace⟩
          · exact .inl (by rw [hplace, if_neg hne])
          · exact .inr ⟨hserial, by rw [hplace, if_neg hne]⟩
        · refine .inr (.inr ?_)
          have hne' : ¬some q = some p := fun hsome => hqp (congrArg Prod.fst (Option.some.inj hsome))
          change ite _ _ _ = _
          rw [hplace, if_neg hne']

/-- Every section keeps the fence sound. -/
theorem Sound.apply {op : Op} (hop : f.apply op = some f') : f'.Sound := by
  have hkept : ∀ {α : Type} (o : Option α), Kept o none ∧ Kept o o := fun _ => ⟨.inl rfl, .inr rfl⟩
  rw [Fence.apply.eq_def] at hop
  cases op with
  | claim =>
    dsimp only at hop
    split_ifs at hop with hfree
    cases hop
    exact h.claim hfree.1 hfree.2.1
  | timeout generation =>
    dsimp only at hop
    split_ifs at hop with hmem hopen
    · cases hop
      exact (h.takeDown id (hkept _).2 (hkept _).2 (hkept _).2).forget generation
    · cases hop
      exact h.forget generation
  | fail generation =>
    dsimp only at hop
    split_ifs at hop with hmem
    cases hop
    exact h.forget generation
  | «open» p =>
    dsimp only at hop
    split_ifs at hop with hmem hcurrent
    · cases hop
      exact h.open hmem.1 hmem.2 hcurrent.2
    · cases hop
      exact h.forget p.2
  | publishListener p =>
    dsimp only at hop
    split_ifs at hop with hp
    cases hop
    exact h.publish hp (.inl ⟨rfl, rfl⟩)
  | publishMesh p =>
    dsimp only at hop
    split_ifs at hop with hp
    cases hop
    exact h.publish hp.2 (.inr ⟨rfl, rfl, hp.1⟩)
  | closeMesh =>
    dsimp only at hop
    split_ifs at hop with hserial
    · cases hop
      exact h.takeDown id (hkept _).2 (hkept _).1 (hkept _).1
    · cases hop
      exact h
  | cleanupAfterReset =>
    cases hop
    exact h.takeDown id (hkept _).1 (hkept _).2 (hkept _).1
  | poison p =>
    dsimp only at hop
    by_cases hp : p ∈ f.opened ∨ f.Detached p.1
    · rw [if_pos hp, Option.some.injEq] at hop
      exact hop ▸ h.poison hp
    · rw [if_neg hp] at hop
      cases hop
  | closeListener iface =>
    dsimp only at hop
    split_ifs at hop with hlistener
    · cases hop
      exact h.takeDown id (hkept _).1 (hkept _).2 (hkept _).2
    · cases hop
      exact h
  | stop =>
    cases hop
    exact h.takeDown nofun (hkept _).2 (hkept _).2 (hkept _).2
  | stopDetach =>
    dsimp only at hop
    split_ifs at hop with hactive
    cases hop
    refine h.shrink ⟨id, rfl, Nat.le_refl _, rfl, (hkept _).1, (hkept _).2, (hkept _).1,
      .refl _, rfl, fun _ => id⟩ (.inr fun _ _ _ _ => .inl (.inl ?_))
    exact Bool.not_eq_true _ ▸ hactive
  | beginProbe p =>
    dsimp only at hop
    split_ifs at hop with hp hskip
    · cases hop
      exact h
    · cases hop
      rw [not_or, not_and_or, not_not, not_not] at hskip
      exact h.beginProbe hp hskip.1 hskip.2
  | endProbe p previous =>
    dsimp only at hop
    by_cases hp : (p, previous) ∈ f.probes
    · rw [if_pos hp, Option.some.injEq] at hop
      exact hop ▸ h.endProbe hp
    · rw [if_neg hp] at hop
      cases hop

omit h

theorem sound_start (serialMode : Bool) : (start serialMode).Sound := by
  refine ⟨Nat.le_refl _, nofun, nofun, nodup_nil, nofun, nofun, nofun, nofun, fun hne => ?_,
    nofun, nofun, nofun⟩
  exact absurd rfl hne

/-! ## Staying lost -/

/-- What is current was a candidate once. -/
theorem Sound.opened_of_isCurrent (h : f.Sound) (hp : f.isCurrent p = true) : p ∈ f.opened := by
  simp only [isCurrent, published, Bool.and_eq_true, Bool.or_eq_true, decide_eq_true_eq] at hp
  obtain ⟨⟨⟨-, hactive⟩, -⟩, (hlistener | ⟨-, hmesh⟩) | hcandidate⟩ := hp
  · have hmem := h.listener_opened p.1 hlistener
    rwa [← hactive] at hmem
  · have hmem := h.mesh_opened p.1 hmesh
    rwa [← hactive] at hmem
  · exact h.candidate_opened p hcandidate

/-- What was a candidate is current unless its generation is over. -/
theorem Sound.isCurrent_iff (h : f.Sound) (hp : p ∈ f.opened) :
    f.isCurrent p = true ↔ ¬f.Over p.2 := by
  have hle := h.opened_le p hp
  have hactive := h.active_le
  constructor
  · intro hcurrent hover
    simp only [isCurrent, Bool.and_eq_true, decide_eq_true_eq] at hcurrent
    obtain ⟨⟨⟨hrun, -⟩, hopen⟩, -⟩ := hcurrent
    rcases hover with hover | hover
    · rw [hrun] at hover
      cases hover
    · omega
  · intro hover
    have hrun : f.active = true := by
      cases hrun : f.active with
      | true => rfl
      | false => exact absurd (.inl hrun) hover
    have hopen : ¬p.2 < f.openGeneration := fun hlt => hover (.inr hlt)
    have heq : p.2 = f.activeGeneration := by omega
    have heq' : p.2 = f.openGeneration := by omega
    have hplace := (h.live p hp heq).resolve_left hover
    simp only [isCurrent, Bool.and_eq_true, Bool.or_eq_true, decide_eq_true_eq]
    exact ⟨⟨⟨hrun, heq⟩, heq'⟩, hplace⟩

/-- No section makes the gateway active again, counts back, or forgets an interface. -/
theorem apply_grows {op : Op} (hop : f.apply op = some f') :
    (f'.active = true → f.active = true) ∧ f.openGeneration ≤ f'.openGeneration ∧
      ∀ p ∈ f.opened, p ∈ f'.opened := by
  rw [Fence.apply.eq_def] at hop
  cases op with
  | stop =>
    cases hop
    exact ⟨nofun, Nat.le_succ _, fun _ => id⟩
  | «open» p =>
    dsimp only at hop
    split_ifs at hop
    · cases hop
      exact ⟨id, Nat.le_refl _, fun _ => mem_cons_of_mem _⟩
    · cases hop
      exact ⟨id, Nat.le_refl _, fun _ => id⟩
  | poison p =>
    dsimp only at hop
    by_cases hp : p ∈ f.opened ∨ f.Detached p.1
    · rw [if_pos hp, Option.some.injEq] at hop
      subst hop
      refine ⟨id, ?_, fun _ => id⟩
      dsimp only
      split_ifs
      · exact Nat.le_succ _
      · exact Nat.le_refl _
    · rw [if_neg hp] at hop
      cases hop
  | _ =>
    dsimp only at hop
    -- The others leave the gateway active, and count by one or not at all.
    try split_ifs at hop
    all_goals
      cases hop
      refine ⟨id, ?_, fun _ => id⟩
      first
      | exact Nat.le_refl _
      | exact Nat.le_succ _

/-- A generation that is over stays so. -/
theorem apply_over {op : Op} (hop : f.apply op = some f') (hg : f.Over g) : f'.Over g :=
  hg.mono (apply_grows hop).1 (apply_grows hop).2.1

/-- What is poisoned is not current any more. -/
theorem Sound.apply_poison (h : f.Sound) (hp : p ∈ f.opened) (hop : f.apply (.poison p) = some f') :
    f'.Over p.2 := by
  have hopen : f'.openGeneration = if p.2 = f.activeGeneration ∧ p.2 = f.openGeneration then
      f.openGeneration + 1 else f.openGeneration := by
    rw [Fence.apply, if_pos (.inl hp), Option.some.injEq] at hop
    rw [← hop]
  have hle := h.opened_le p hp
  have hactive := h.active_le
  refine .inr ?_
  rw [hopen]
  split_ifs <;> omega

end Fence

/-- The locked sections, in any order. -/
def fence (serialMode : Bool) : Transition Fence Fence.Op :=
  .ofNext (· = .start serialMode) Fence.apply

/-- At most one interface is current, and one that was opened and is not current is
    never again. -/
theorem one_current {serialMode : Bool} {f : Fence} (h : (fence serialMode).Reachable f) :
    (∀ p q, f.isCurrent p = true → f.isCurrent q = true → p = q) ∧
    ∀ p ∈ f.opened, f.isCurrent p = false →
      ∀ f', (fence serialMode).Leads (fun _ _ => True) f f' → f'.isCurrent p = false := by
  have hs : f.Sound := h.induction (fun _ hf => by cases hf; exact Fence.sound_start _)
    fun _ _ _ hs _ hop => hs.apply hop
  refine ⟨fun p q hp hq => ?_, fun p hp hlost f' hleads => ?_⟩
  · have hgen : p.2 = q.2 := by
      simp only [Fence.isCurrent, Bool.and_eq_true, decide_eq_true_eq] at hp hq
      exact hp.1.1.2.trans hq.1.1.2.symm
    exact hs.opened_unique p (hs.opened_of_isCurrent hp) q (hs.opened_of_isCurrent hq) (.inr hgen)
  · have hover : f.Over p.2 := by
      by_contra hnot
      rw [(hs.isCurrent_iff hp).2 hnot] at hlost
      cases hlost
    obtain ⟨hs', hp', hover'⟩ : f'.Sound ∧ p ∈ f'.opened ∧ f'.Over p.2 := by
      refine hleads.invariant (I := fun f => f.Sound ∧ p ∈ f.opened ∧ f.Over p.2) ?_ ⟨hs, hp, hover⟩
      exact fun f op f' h _ hop =>
        ⟨h.1.apply hop, (Fence.apply_grows hop).2.2 p h.2.1, Fence.apply_over hop h.2.2⟩
    exact Bool.eq_false_iff.2 fun hcur => (hs'.isCurrent_iff hp').1 hcur hover'

/-- The first interface is poisoned, and another is the listener. -/
theorem one_current_poisoned : ∃ f, (fence false).Reachable f ∧ f.isCurrent (8, 3) = true ∧
    ∀ f', (fence false).Leads (fun _ _ => True) f f' → f'.isCurrent (7, 1) = false := by
  obtain ⟨f, hf, hcur, hp, hlost⟩ : ∃ f ∈ [Fence.Op.claim, .open (7, 1), .publishListener (7, 1),
      .poison (7, 1), .claim, .open (8, 3), .publishListener (8, 3)].foldlM Fence.apply
        (.start false), f.isCurrent (8, 3) = true ∧ (7, 1) ∈ f.opened ∧
          f.isCurrent (7, 1) = false := by
    decide
  have hreach : (fence false).Reachable f := .foldlM (.init rfl) hf
  exact ⟨f, hreach, hcur, (one_current hreach).2 _ hp hlost⟩

end ReticulumPi.Gateway
