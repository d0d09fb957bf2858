import Mathlib.Logic.Relation

/-!
# Transition systems and their runs

A labelled transition system over the states `σ`: its initial states and its
steps, each with a label saying what happened. Runs are taken under a *guard*
on the steps: `L.Reach ok` are the states reached by runs all of whose steps
meet `ok` (a run without conditions has the guard that always holds,
`L.Reachable`), so that a statement about the runs in which a condition holds
throughout is proved by the same rule, `Reach.induction`, as one about all
runs.
-/

/-- A transition system on the states `σ` with steps labelled in `ι`. -/
structure Transition (σ ι : Type*) where
  /-- The initial states. -/
  init : σ → Prop
  /-- The steps. -/
  step : σ → ι → σ → Prop

namespace Transition

variable {σ ι : Type*} (L : Transition σ ι) (ok : σ → ι → Prop)

/-- A step whose label meets the guard `ok` in the state before it. -/
def Guarded (s s' : σ) : Prop := ∃ a, ok s a ∧ L.step s a s'

/-- The state `s'` comes after `s` in a run whose steps meet `ok`. -/
def Leads : σ → σ → Prop := Relation.ReflTransGen (L.Guarded ok)

/-- The states reached by the runs whose steps all meet `ok`. -/
def Reach (s : σ) : Prop := ∃ s₀, L.init s₀ ∧ L.Leads ok s₀ s

/-- The states reached by all runs. -/
def Reachable (s : σ) : Prop := L.Reach (fun _ _ => True) s

variable {L} {ok : σ → ι → Prop} {s s' : σ} {a : ι}

theorem Reach.init (h : L.init s) : L.Reach ok s := ⟨s, h, .refl⟩

theorem Reach.step (h : L.Reach ok s) (ha : ok s a) (hs : L.step s a s') : L.Reach ok s' :=
  let ⟨s₀, h₀, hr⟩ := h
  ⟨s₀, h₀, hr.tail ⟨a, ha, hs⟩⟩

/-- A weaker guard allows more runs. -/
theorem Reach.mono {ok' : σ → ι → Prop} (h : L.Reach ok s) (hok : ∀ s a, ok s a → ok' s a) :
    L.Reach ok' s :=
  let ⟨s₀, h₀, hr⟩ := h
  ⟨s₀, h₀, Relation.ReflTransGen.mono (fun _ _ ⟨a, ha, hs⟩ => ⟨a, hok _ a ha, hs⟩) _ _ hr⟩

theorem Reach.leads (h : L.Reach ok s) (hs : L.Leads ok s s') : L.Reach ok s' :=
  let ⟨s₀, h₀, hr⟩ := h
  ⟨s₀, h₀, hr.trans hs⟩

theorem Reachable.step (h : L.Reachable s) (hs : L.step s a s') : L.Reachable s' :=
  Reach.step h trivial hs

/-- What every step meeting the guard keeps holds ever after. -/
theorem Leads.invariant {I : σ → Prop} (step : ∀ s a s', I s → ok s a → L.step s a s' → I s')
    (h : I s) (hs : L.Leads ok s s') : I s' := by
  induction hs with
  | refl => exact h
  | tail _ hs ih =>
    obtain ⟨a, ha, hs⟩ := hs
    exact step _ a _ ih ha hs

/-- The invariant rule: what holds initially and is kept by every step meeting
    the guard holds of every state reached. -/
theorem Reach.induction {I : σ → Prop} (init : ∀ s, L.init s → I s)
    (step : ∀ s a s', I s → ok s a → L.step s a s' → I s') (h : L.Reach ok s) : I s :=
  let ⟨s₀, h₀, hr⟩ := h
  hr.invariant step (init s₀ h₀)

/-- What every step keeps along a run, from a reached state on: a relation that
    is reflexive, transitive, and holds across every step from a reached state. -/
theorem Leads.induction {R : σ → σ → Prop} (refl : ∀ s, R s s)
    (trans : ∀ s t u, R s t → R t u → R s u)
    (step : ∀ s a s', L.Reach ok s → ok s a → L.step s a s' → R s s')
    (h : L.Reach ok s) (hs : L.Leads ok s s') : R s s' := by
  induction hs with
  | refl => exact refl s
  | tail hr hst ih =>
    obtain ⟨a, ha, hst⟩ := hst
    exact trans _ _ _ ih (step _ a _ (h.leads hr) ha hst)

/-! ## Keeping a record -/

variable (L) in
/-- The system that also keeps a record of its steps, the latest first: the state
    before the step, its label, and the state after it. -/
def logged : Transition (σ × List (σ × ι × σ)) ι where
  init p := L.init p.1 ∧ p.2 = []
  step p a p' := L.step p.1 a p'.1 ∧ p'.2 = (p.1, a, p'.1) :: p.2

/-- Keeping a record forbids no run. -/
theorem Reach.logged (h : L.Reach ok s) : ∃ l, L.logged.Reach (fun p a => ok p.1 a) (s, l) := by
  refine Reach.induction (I := fun s => ∃ l, L.logged.Reach (fun p a => ok p.1 a) (s, l))
    (fun s hs => ?_) (fun s a s' ih ha hs => ?_) h
  · exact ⟨[], Reach.init ⟨hs, rfl⟩⟩
  · obtain ⟨l, hl⟩ := ih
    exact ⟨(s, a, s') :: l, hl.step ha ⟨hs, rfl⟩⟩

/-! ## Systems given by a function -/

/-- The system that takes the steps of a partial function. -/
def ofNext (init : σ → Prop) (next : σ → ι → Option σ) : Transition σ ι where
  init := init
  step s a s' := next s a = some s'

variable {init : σ → Prop} {next : σ → ι → Option σ}

/-- A list of steps of such a system that meet the guard is a run of it. -/
theorem Reach.foldlM [∀ s a, Decidable (ok s a)] (h : (ofNext init next).Reach ok s) {l : List ι}
    (hl : l.foldlM (fun s a => if ok s a then next s a else none) s = some s') :
    (ofNext init next).Reach ok s' := by
  induction l generalizing s with
  | nil =>
    cases hl
    exact h
  | cons a l ih =>
    rw [List.foldlM_cons] at hl
    obtain ⟨s₁, hs₁, hl⟩ := Option.bind_eq_some_iff.1 hl
    by_cases ha : ok s a
    · rw [if_pos ha] at hs₁
      exact ih (h.step ha hs₁) hl
    · rw [if_neg ha] at hs₁
      cases hs₁

theorem Reachable.foldlM
    (h : (ofNext init next).Reachable s) {l : List ι} (hl : l.foldlM next s = some s') :
    (ofNext init next).Reachable s' :=
  Reach.foldlM h (by simpa using hl)

/-- A list of steps that meet the guard leads from where it starts to where it ends. -/
theorem Leads.foldlM_guarded [∀ s a, Decidable (ok s a)] {l : List ι}
    (hl : l.foldlM (fun s a => if ok s a then next s a else none) s = some s') :
    (ofNext init next).Leads ok s s' := by
  have hs : Reach (L := ofNext (· = s) next) ok s' := Reach.foldlM (Reach.init rfl) hl
  obtain ⟨s₀, rfl, hleads⟩ := hs
  exact hleads

theorem Leads.foldlM {l : List ι}
    (hl : l.foldlM next s = some s') : (ofNext init next).Leads (fun _ _ => True) s s' :=
  Leads.foldlM_guarded (by simpa using hl)

end Transition
