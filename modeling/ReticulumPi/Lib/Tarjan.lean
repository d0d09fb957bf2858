import Mathlib.Data.Finset.Card
import Mathlib.Data.List.Sort

/-!
# Strongly connected components

Tarjan's algorithm, on a graph that is given by the list of the successors of each
node. A call of `strongConnect` numbers a node, visits its successors, and takes a
component off the stack when its node is the root of one. What is kept of the
components is the *cycle map*: it maps the nodes that are on a cycle to the members
of their component, in order.

* `Inv`: the invariant, for the *gray* nodes, whose calls are running;
* `Loop`: where the loop over the successors of a node is;
* `Post`: what a call does;
* `run_spec`: the cycle map is right in the end.
-/

namespace Tarjan

open Relation List

variable {α : Type*} [LinearOrder α]

structure State (α : Type*) where
  index : ℕ := 0
  indices : α → Option ℕ := fun _ => none
  lowlinks : α → Option ℕ := fun _ => none
  /-- The last one first. -/
  stack : List α := []
  onStack : Finset α := ∅
  cycleMap : α → Option (List α) := fun _ => none

/-- The part of a stack up to the node, and the rest. -/
def popUntil (name : α) : List α → List α × List α
  | [] => ([], [])
  | member :: stack =>
    if member = name then ([member], stack)
    else (member :: (popUntil name stack).1, (popUntil name stack).2)

namespace State

variable (s : State α)

def enter (name : α) : State α where
  index := s.index + 1
  indices := Function.update s.indices name (some s.index)
  lowlinks := Function.update s.lowlinks name (some s.index)
  stack := name :: s.stack
  onStack := insert name s.onStack
  cycleMap := s.cycleMap

def lower (name : α) (value : ℕ) : Option (State α) :=
  (s.lowlinks name).map fun low =>
    { s with lowlinks := Function.update s.lowlinks name (some (min low value)) }

/-- A component is taken off the stack, if the node is the root of one. -/
def leave (dependencies : α → List α) (name : α) : State α :=
  if s.lowlinks name ≠ s.indices name then s
  else
    let component := (popUntil name s.stack).1
    let members := component.insertionSort (· ≤ ·)
    { s with
      stack := (popUntil name s.stack).2
      onStack := s.onStack \ component.toFinset
      cycleMap := fun v =>
        if (1 < members.length ∨ name ∈ dependencies name) ∧ v ∈ members then some members
        else s.cycleMap v }

end State

section Algorithm

variable (dependencies : α → List α)

def strongConnect : ℕ → State α → α → Option (State α)
  | 0, _, _ => none
  | fuel + 1, s, name => do
    let s ← (dependencies name).foldlM (fun s dependency =>
      match s.indices dependency with
      | none => do
        let s ← strongConnect fuel s dependency
        (s.lowlinks dependency).bind (s.lower name)
      | some i => if dependency ∈ s.onStack then s.lower name i else some s) (s.enter name)
    some (s.leave dependencies name)

/-- The algorithm, from every node that has not been visited yet. -/
def run (names : List α) : Option (State α) :=
  names.foldlM (fun s name =>
    if s.indices name = none then strongConnect dependencies names.length s name else some s) {}

/-! ## The graph -/

/-- The second node is a successor of the first one. -/
def Edge (v w : α) : Prop := w ∈ dependencies v

def Reach : α → α → Prop := ReflTransGen (Edge dependencies)

/-- The node is on a cycle. -/
def OnCycle (v : α) : Prop := TransGen (Edge dependencies) v v

/-- What the cycle map has to say of a node: nothing if it is on no cycle, and else
    the members of its component, in order. -/
def Reports (v : α) (report : Option (List α)) : Prop :=
  (report = none ∧ ¬ OnCycle dependencies v) ∨
    ∃ members, report = some members ∧ OnCycle dependencies v ∧ members.Pairwise (· < ·) ∧
      ∀ w, w ∈ members ↔ Reach dependencies v w ∧ Reach dependencies w v

end Algorithm

variable {dependencies : α → List α} {s s₀ s' : State α} {gray names : List α} {name v w d : α}
  {i : ℕ}

/-! ## The invariant -/

/-- The number of a visited node. -/
def State.idx (s : State α) (v : α) : ℕ := (s.indices v).getD 0

omit [LinearOrder α] in
theorem State.idx_of (h : s.indices v = some i) : s.idx v = i := by
  rw [State.idx, h]
  rfl

/-- The component of the node has been taken off the stack. -/
def State.Done (s : State α) (v : α) : Prop := s.indices v ≠ none ∧ v ∉ s.stack

variable (dependencies) in
/-- The gray nodes reach what comes after them on the stack, and from all of the
    stack a gray node that comes before is reached; black nodes have visited
    successors, and those of done ones are done. -/
structure Inv (s : State α) (gray : List α) : Prop where
  lt : ∀ v i, s.indices v = some i → i < s.index
  visited : ∀ v ∈ s.stack, s.indices v ≠ none
  sorted : s.stack.Pairwise fun v w => s.idx w < s.idx v
  onStack : ∀ v, v ∈ s.onStack ↔ v ∈ s.stack
  done : ∀ v, s.Done v → ∀ w ∈ dependencies v, s.Done w
  black : ∀ v, s.indices v ≠ none → v ∉ gray → ∀ w ∈ dependencies v, s.indices w ≠ none
  held : ∀ g ∈ gray, g ∈ s.stack
  up : ∀ g ∈ gray, ∀ v ∈ s.stack, s.idx g ≤ s.idx v → Reach dependencies g v
  down : ∀ v ∈ s.stack, ∃ g ∈ gray, s.idx g ≤ s.idx v ∧ Reach dependencies v g
  reports : ∀ v, s.Done v → Reports dependencies v (s.cycleMap v)
  silent : ∀ v, ¬ s.Done v → s.cycleMap v = none

theorem inv_start : Inv dependencies {} [] where
  lt _ _ h := by cases h
  visited _ h := by cases h
  sorted := Pairwise.nil
  onStack v := by simp
  done _ h := absurd rfl h.1
  black _ h := absurd rfl h
  held _ h := by cases h
  up _ h := by cases h
  down _ h := by cases h
  reports _ h := absurd rfl h.1
  silent _ _ := rfl

/-- From a done node only done ones are reached. -/
theorem Inv.done_of_reach (hs : Inv dependencies s gray) (hv : s.Done v)
    (h : Reach dependencies v w) : s.Done w := by
  induction h with
  | refl => exact hv
  | tail _ hedge ih => exact hs.done _ ih _ hedge

/-- The lowlinks do not matter. -/
theorem Inv.lowlinks (hs : Inv dependencies s gray) (lowlinks : α → Option ℕ) :
    Inv dependencies { s with lowlinks } gray :=
  ⟨hs.lt, hs.visited, hs.sorted, hs.onStack, hs.done, hs.black, hs.held, hs.up, hs.down,
    hs.reports, hs.silent⟩

/-! ## Entering a node -/

theorem indices_enter : (s.enter name).indices v = if v = name then some s.index else s.indices v :=
  Function.update_apply _ _ _ _

theorem idx_enter : (s.enter name).idx v = if v = name then s.index else s.idx v := by
  rw [State.idx, indices_enter]
  split_ifs
  · rfl
  · rfl

/-- What a visited node is numbered is below the index. -/
theorem Inv.idx_lt (hs : Inv dependencies s gray) (hv : s.indices v ≠ none) :
    s.idx v < s.index := by
  obtain ⟨i, hi⟩ := Option.ne_none_iff_exists'.1 hv
  rw [State.idx_of hi]
  exact hs.lt v i hi

theorem Inv.ne_name (hs : Inv dependencies s gray) (hname : s.indices name = none)
    (hv : v ∈ s.stack) : v ≠ name := fun heq => hs.visited v hv (heq ▸ hname)

theorem done_enter (hname : s.indices name = none) : (s.enter name).Done v ↔ s.Done v := by
  rw [State.Done, State.Done, indices_enter]
  change _ ∧ v ∉ name :: s.stack ↔ _
  rw [mem_cons, not_or]
  by_cases hv : v = name
  · rw [hv, hname]
    simp
  · rw [if_neg hv]
    simp [hv]

/-- A node that is reached from all gray ones is entered. -/
theorem Inv.enter (hs : Inv dependencies s gray) (hname : s.indices name = none)
    (hgray : ∀ g ∈ gray, Reach dependencies g name) :
    Inv dependencies (s.enter name) (name :: gray) := by
  have hidx : ∀ v ∈ s.stack, (s.enter name).idx v = s.idx v := fun v hv => by
    rw [idx_enter, if_neg (hs.ne_name hname hv)]
  have hown : (s.enter name).idx name = s.index := by rw [idx_enter, if_pos rfl]
  have hlt : ∀ v ∈ s.stack, (s.enter name).idx v < (s.enter name).idx name := fun v hv => by
    rw [hown, hidx v hv]
    exact hs.idx_lt (hs.visited v hv)
  refine ⟨fun v i hi => ?_, fun v hv => ?_, ?_, fun v => ?_, fun v hv w hw => ?_,
    fun v hv hgray w hw => ?_, fun g hg => ?_, fun g hg v hv hle => ?_, fun v hv => ?_,
    fun v hv => ?_, fun v hv => ?_⟩
  · rw [indices_enter] at hi
    split_ifs at hi
    · cases hi
      exact Nat.lt_succ_self _
    · exact (hs.lt v i hi).trans (Nat.lt_succ_self _)
  · rw [indices_enter]
    split_ifs with heq
    · exact Option.some_ne_none _
    · exact hs.visited v ((mem_cons.1 hv).resolve_left heq)
  · refine pairwise_cons.2 ⟨hlt, hs.sorted.imp_of_mem fun {v w} hv hw h => ?_⟩
    rw [hidx v hv, hidx w hw]
    exact h
  · change v ∈ insert name s.onStack ↔ v ∈ name :: s.stack
    rw [Finset.mem_insert, mem_cons, hs.onStack]
  · rw [done_enter hname] at hv ⊢
    exact hs.done v hv w hw
  · rw [indices_enter] at hv ⊢
    rw [mem_cons, not_or] at hgray
    rw [if_neg hgray.1] at hv
    split_ifs
    · exact Option.some_ne_none _
    · exact hs.black v hv hgray.2 w hw
  · rcases mem_cons.1 hg with rfl | hg
    · exact mem_cons_self
    · exact mem_cons_of_mem _ (hs.held g hg)
  · rcases mem_cons.1 hg with rfl | hmem
    · rcases mem_cons.1 hv with rfl | hv
      · exact .refl
      · exact absurd (hlt v hv) (not_lt_of_ge hle)
    · rcases mem_cons.1 hv with rfl | hv
      · exact hgray g hmem
      · rw [hidx v hv, hidx g (hs.held g hmem)] at hle
        exact hs.up g hmem v hv hle
  · rcases mem_cons.1 hv with rfl | hv
    · exact ⟨v, mem_cons_self, le_rfl, .refl⟩
    · obtain ⟨g, hg, hle, hreach⟩ := hs.down v hv
      refine ⟨g, mem_cons_of_mem _ hg, ?_, hreach⟩
      rw [hidx v hv, hidx g (hs.held g hg)]
      exact hle
  · exact hs.reports v ((done_enter hname).1 hv)
  · exact hs.silent v fun h => hv ((done_enter hname).2 h)

/-! ## The loop over the successors -/

variable {seen : α → Prop} {new : List α} {low : ℕ}

/-- The lowlink of the node is its own number, or that of a node that it reaches below
    it on the stack, and is a bound for all edges down the stack that are known. -/
structure LowAt (dependencies : α → List α) (s₀ : State α) (name : α) (new : List α)
    (seen : α → Prop) (low : ℕ) : Prop where
  reach : low = s₀.index ∨
    ∃ v ∈ s₀.stack, s₀.indices v = some low ∧ Reach dependencies name v
  bound : ∀ v ∈ s₀.stack, ((∃ x ∈ new, v ∈ dependencies x) ∨ seen v) → low ≤ s₀.idx v

/-- The loop of the call that has entered the node in the state `s₀`, after the
    successors that have been seen. -/
structure Loop (dependencies : α → List α) (s₀ s : State α) (gray : List α) (name : α)
    (seen : α → Prop) : Prop where
  inv : Inv dependencies s (name :: gray)
  keep : ∀ v i, (s₀.enter name).indices v = some i → s.indices v = some i
  lowKeep : ∀ v, s₀.indices v ≠ none → s.lowlinks v = s₀.lowlinks v
  met : ∀ d, seen d → s.indices d ≠ none
  out : ∃ new low, s.stack = new ++ name :: s₀.stack ∧ (∀ v ∈ new, s₀.indices v = none) ∧
    s.lowlinks name = some low ∧ LowAt dependencies s₀ name new seen low

/-- What a call does. Either the component of the node has been taken off the stack,
    or the node reaches one that is below it. -/
structure Post (dependencies : α → List α) (s s' : State α) (gray : List α) (name : α) : Prop where
  inv : Inv dependencies s' gray
  keep : ∀ v i, s.indices v = some i → s'.indices v = some i
  lowKeep : ∀ v, s.indices v ≠ none → s'.lowlinks v = s.lowlinks v
  visited : s'.indices name ≠ none
  out : ∃ new low, s'.stack = new ++ s.stack ∧ (∀ v ∈ new, s.indices v = none) ∧
    s'.lowlinks name = some low ∧ LowAt dependencies s name new (fun _ => False) low

variable (hs : Loop dependencies s₀ s gray name seen)
include hs

theorem Loop.keep' (hname : s₀.indices name = none)
    (hv : s₀.indices v = some i) : s.indices v = some i := by
  refine hs.keep v i ?_
  rw [indices_enter, if_neg]
  · exact hv
  · rintro rfl
    rw [hname] at hv
    cases hv

theorem Loop.own : s.indices name = some s₀.index :=
  hs.keep name s₀.index (by rw [indices_enter, if_pos rfl])

/-- A visited node keeps its number. -/
theorem Loop.idx_eq (hname : s₀.indices name = none)
    (hv : s₀.indices v ≠ none) : s.idx v = s₀.idx v := by
  obtain ⟨i, hi⟩ := Option.ne_none_iff_exists'.1 hv
  rw [State.idx_of hi, State.idx_of (hs.keep' hname hi)]

omit hs

theorem loop_enter (hs : Inv dependencies s gray) (hname : s.indices name = none)
    (hgray : ∀ g ∈ gray, Reach dependencies g name) :
    Loop dependencies s (s.enter name) gray name fun _ => False := by
  refine ⟨hs.enter hname hgray, fun v i hi => hi, fun v hv => ?_, fun d hd => hd.elim,
    [], s.index, rfl, fun v hv => (by cases hv), Function.update_self .., .inl rfl,
    fun v hv h => ?_⟩
  · refine Function.update_of_ne ?_ _ _
    rintro rfl
    exact hv hname
  · rcases h with ⟨x, hx, -⟩ | h
    · cases hx
    · exact h.elim

/-- The numbers of what is on the stack from the node on are not below its own. -/
theorem Loop.index_le (hs : Loop dependencies s₀ s gray name seen)
    (hstack : s.stack = new ++ name :: s₀.stack) (hv : v ∈ new ∨ v = name) :
    s₀.index ≤ s.idx v := by
  rw [← State.idx_of hs.own]
  rcases hv with hv | rfl
  · have hsorted := hs.inv.sorted
    rw [hstack, pairwise_append] at hsorted
    exact (hsorted.2.2 v hv name mem_cons_self).le
  · exact le_rfl

omit [LinearOrder α] in
/-- The lowlink is lowered to the value for a successor. -/
theorem LowAt.lower (new' : List α) (value : ℕ) (hat : LowAt dependencies s₀ name new seen low)
    (hlt : ∀ v ∈ s₀.stack, s₀.idx v < s₀.index)
    (hvalue : s₀.index ≤ value ∨
      ∃ v ∈ s₀.stack, s₀.indices v = some value ∧ Reach dependencies name v)
    (hbound : ∀ v ∈ s₀.stack, ((∃ x ∈ new', v ∈ dependencies x) ∨ v = d) → value ≤ s₀.idx v) :
    LowAt dependencies s₀ name (new' ++ new) (fun v => v = d ∨ seen v) (min low value) := by
  constructor
  · rcases le_total low value with hle | hle
    · rw [min_eq_left hle]
      exact hat.reach
    · rw [min_eq_right hle]
      refine hvalue.imp_left fun hvalue => ?_
      -- The value is not below the number of the node, and the lowlink is not above it.
      rcases hat.reach with hlow | ⟨v, hv, hi, -⟩
      · omega
      · have := hlt v hv
        rw [State.idx_of hi] at this
        omega
  · rintro v hv (⟨x, hx, hedge⟩ | heq | hseen)
    · rcases mem_append.1 hx with hx | hx
      · exact (min_le_right _ _).trans (hbound v hv (.inl ⟨x, hx, hedge⟩))
      · exact (min_le_left _ _).trans (hat.bound v hv (.inl ⟨x, hx, hedge⟩))
    · exact (min_le_right _ _).trans (hbound v hv (.inr heq))
    · exact (min_le_left _ _).trans (hat.bound v hv (.inr hseen))

theorem loop_lower {value : ℕ} (new : List α) (low : ℕ) (hname : s₀.indices name = none)
    (hinv : Inv dependencies s (name :: gray))
    (hkeep : ∀ v i, (s₀.enter name).indices v = some i → s.indices v = some i)
    (hlowKeep : ∀ v, s₀.indices v ≠ none → s.lowlinks v = s₀.lowlinks v)
    (hmet : ∀ d, seen d → s.indices d ≠ none) (hstack : s.stack = new ++ name :: s₀.stack)
    (hnew : ∀ v ∈ new, s₀.indices v = none) (hlow : s.lowlinks name = some low)
    (hat : LowAt dependencies s₀ name new seen (min low value)) :
    ∃ s', s.lower name value = some s' ∧ Loop dependencies s₀ s' gray name seen := by
  refine ⟨_, congrArg (Option.map _) hlow, hinv.lowlinks _, hkeep, fun v hv => ?_, hmet, new,
    min low value, hstack, hnew, Function.update_self .., hat⟩
  rw [← hlowKeep v hv]
  refine Function.update_of_ne ?_ _ _
  rintro rfl
  exact hv hname

/-- A successor that has been visited is on the stack, or done. -/
theorem Loop.visited (hs : Loop dependencies s₀ s gray name seen) (hs₀ : Inv dependencies s₀ gray)
    (hname : s₀.indices name = none) (hedge : d ∈ dependencies name) (hd : s.indices d = some i) :
    ∃ s', (if d ∈ s.onStack then s.lower name i else some s) = some s' ∧
      Loop dependencies s₀ s' gray name fun v => v = d ∨ seen v := by
  obtain ⟨new, low, hstack, hnew, hlow, hat⟩ := hs.out
  have hmet : ∀ v, (v = d ∨ seen v) → s.indices v ≠ none := by
    rintro v (rfl | hv)
    · rw [hd]
      exact Option.some_ne_none _
    · exact hs.met v hv
  split_ifs with hon
  · have hlower := LowAt.lower [] i (d := d) hat
      (fun v hv => hs₀.idx_lt (hs₀.visited v hv)) ?_ ?_
    · exact loop_lower new low hname hs.inv hs.keep hs.lowKeep hmet hstack hnew hlow hlower
    · rw [hs.inv.onStack, hstack, mem_append, mem_cons, ← or_assoc] at hon
      rw [← State.idx_of hd]
      rcases hon with hon | hon
      · exact .inl (hs.index_le hstack hon)
      · refine .inr ⟨d, hon, ?_, .single hedge⟩
        obtain ⟨j, hj⟩ := Option.ne_none_iff_exists'.1 (hs₀.visited d hon)
        rw [hs.idx_eq hname (hs₀.visited d hon), State.idx_of hj]
        exact hj
    · rintro v hv (⟨x, hx, -⟩ | rfl)
      · cases hx
      · rw [← hs.idx_eq hname (hs₀.visited v hv), State.idx_of hd]
  · refine ⟨s, rfl, hs.inv, hs.keep, hs.lowKeep, hmet, new, low, hstack, hnew, hlow,
      hat.reach, ?_⟩
    rintro v hv (hx | rfl | hseen)
    · exact hat.bound v hv (.inl hx)
    · -- What is not on the stack was not on it before.
      refine absurd ((hs.inv.onStack v).2 ?_) hon
      rw [hstack]
      exact mem_append_right _ (mem_cons_of_mem _ hv)
    · exact hat.bound v hv (.inr hseen)

/-- A successor is visited in the loop. -/
theorem Loop.called {s₁ : State α} (hs : Loop dependencies s₀ s gray name seen)
    (hs₀ : Inv dependencies s₀ gray) (hname : s₀.indices name = none)
    (hedge : d ∈ dependencies name) (hd : s.indices d = none)
    (hpost : Post dependencies s s₁ (name :: gray) d) :
    ∃ s', (s₁.lowlinks d).bind (s₁.lower name) = some s' ∧
      Loop dependencies s₀ s' gray name fun v => v = d ∨ seen v := by
  obtain ⟨new, low, hstack, hnew, hlow, hat⟩ := hs.out
  obtain ⟨new', low', hstack', hnew', hlow', hat'⟩ := hpost.out
  have hown : s.indices name ≠ none := by
    rw [hs.own]
    exact Option.some_ne_none _
  have hvisited : ∀ v, s₀.indices v ≠ none → s.indices v ≠ none := fun v hv => by
    obtain ⟨i, hi⟩ := Option.ne_none_iff_exists'.1 hv
    rw [hs.keep' hname hi]
    exact Option.some_ne_none _
  have hstays : ∀ v, s.indices v ≠ none → s₁.indices v ≠ none := fun v hv => by
    obtain ⟨i, hi⟩ := Option.ne_none_iff_exists'.1 hv
    rw [hpost.keep v i hi]
    exact Option.some_ne_none _
  rw [hlow', Option.bind_some]
  refine loop_lower (new' ++ new) low hname hpost.inv
    (fun v i hi => hpost.keep v i (hs.keep v i hi)) (fun v hv => ?_) ?_ ?_ ?_ ?_
    (LowAt.lower new' low' hat (fun v hv => hs₀.idx_lt (hs₀.visited v hv)) ?_ ?_)
  · rw [hpost.lowKeep v (hvisited v hv), hs.lowKeep v hv]
  · rintro v (rfl | hv)
    · exact hpost.visited
    · exact hstays v (hs.met v hv)
  · rw [hstack', hstack, append_assoc]
  · intro v hv
    rcases mem_append.1 hv with hv | hv
    · by_contra hne
      exact hvisited v hne (hnew' v hv)
    · exact hnew v hv
  · rw [hpost.lowKeep name hown, hlow]
  · rcases hat'.reach with rfl | ⟨v, hv, hi, hreach⟩
    · exact .inl (hs.inv.lt name _ hs.own).le
    · rw [hstack, mem_append, mem_cons, ← or_assoc] at hv
      rcases hv with hv | hv
      · rw [← State.idx_of hi]
        exact .inl (hs.index_le hstack hv)
      · obtain ⟨j, hj⟩ := Option.ne_none_iff_exists'.1 (hs₀.visited v hv)
        rw [hs.keep' hname hj] at hi
        cases hi
        exact .inr ⟨v, hv, hj, .head hedge hreach⟩
  · rintro v hv (hx | rfl)
    · rw [← hs.idx_eq hname (hs₀.visited v hv)]
      refine hat'.bound v ?_ (.inl hx)
      rw [hstack]
      exact mem_append_right _ (mem_cons_of_mem _ hv)
    · exact absurd hd (hvisited v (hs₀.visited v hv))

/-! ## Leaving a node -/

theorem popUntil_append {stack : List α} (h : name ∉ new) :
    popUntil name (new ++ name :: stack) = (new ++ [name], stack) := by
  induction new with
  | nil => rw [nil_append, popUntil, if_pos rfl, nil_append]
  | cons v new ih =>
    rw [mem_cons, not_or] at h
    rw [cons_append, popUntil, if_neg (Ne.symm h.1), ih h.2, cons_append]

theorem Inv.nodup (hs : Inv dependencies s gray) : s.stack.Nodup :=
  hs.sorted.imp fun hlt heq => by
    rw [heq] at hlt
    exact hlt.false

/-- Gray nodes were visited before. -/
theorem Loop.not_mem_gray (hs₀ : Inv dependencies s₀ gray) (hname : s₀.indices name = none)
    (hnew : ∀ v ∈ new, s₀.indices v = none) (hv : v ∈ new ∨ v = name) : v ∉ gray := by
  intro hgray
  have hvisited := hs₀.visited v (hs₀.held v hgray)
  rcases hv with hv | rfl
  · exact hvisited (hnew v hv)
  · exact hvisited hname

/-- If the node is the root of a component, the edges from what is on the stack from it
    on lead back there, or to done nodes. -/
theorem Loop.closed (hs : Loop dependencies s₀ s gray name seen) (hs₀ : Inv dependencies s₀ gray)
    (hname : s₀.indices name = none) (hall : ∀ d ∈ dependencies name, seen d)
    (hstack : s.stack = new ++ name :: s₀.stack) (hnew : ∀ v ∈ new, s₀.indices v = none)
    (hat : LowAt dependencies s₀ name new seen s₀.index) (hv : v ∈ new ∨ v = name)
    (hw : w ∈ dependencies v) : (w ∈ new ∨ w = name) ∨ s.Done w := by
  have hvisited : s.indices w ≠ none := by
    rcases hv with hv | rfl
    · by_cases heq : v = name
      · exact hs.met w (hall w (heq ▸ hw))
      · refine hs.inv.black v (hs.inv.visited v ?_) ?_ w hw
        · rw [hstack]
          exact mem_append_left _ hv
        · rw [mem_cons, not_or]
          exact ⟨heq, Loop.not_mem_gray hs₀ hname hnew (.inl hv)⟩
    · exact hs.met w (hall w hw)
  by_cases hmem : w ∈ s.stack
  · rw [hstack, mem_append, mem_cons, ← or_assoc] at hmem
    rcases hmem with hmem | hmem
    · exact .inl hmem
    · -- An edge down the stack would be below the lowlink.
      have hbound : s₀.index ≤ s₀.idx w := by
        refine hat.bound w hmem ?_
        rcases hv with hv | rfl
        · exact .inl ⟨v, hv, hw⟩
        · exact .inr (hall w hw)
      exact absurd (hs₀.idx_lt (hs₀.visited w hmem)) (not_lt_of_ge hbound)
  · exact .inr ⟨hvisited, hmem⟩

theorem Loop.closed_reach (hs : Loop dependencies s₀ s gray name seen)
    (hclosed : ∀ v, (v ∈ new ∨ v = name) → ∀ w ∈ dependencies v, (w ∈ new ∨ w = name) ∨ s.Done w)
    (hv : v ∈ new ∨ v = name) (h : Reach dependencies v w) : (w ∈ new ∨ w = name) ∨ s.Done w := by
  induction h with
  | refl => exact .inl hv
  | tail _ hedge ih =>
    rcases ih with ih | ih
    · exact hclosed _ ih _ hedge
    · exact .inr (hs.inv.done _ ih _ hedge)

/-- The root reaches what is on the stack from it on, and is reached from there. -/
theorem Loop.reach_root (hs : Loop dependencies s₀ s gray name seen)
    (hs₀ : Inv dependencies s₀ gray) (hname : s₀.indices name = none)
    (hstack : s.stack = new ++ name :: s₀.stack) (hnew : ∀ v ∈ new, s₀.indices v = none)
    (hclosed : ∀ v, (v ∈ new ∨ v = name) → ∀ w ∈ dependencies v, (w ∈ new ∨ w = name) ∨ s.Done w)
    (hv : v ∈ new ∨ v = name) : Reach dependencies name v ∧ Reach dependencies v name := by
  have hmem : v ∈ s.stack := by
    rw [hstack, mem_append, mem_cons]
    exact hv.imp_right .inl
  constructor
  · refine hs.inv.up name mem_cons_self v hmem ?_
    rw [State.idx_of hs.own]
    exact hs.index_le hstack hv
  · obtain ⟨g, hg, -, hreach⟩ := hs.inv.down v hmem
    rcases mem_cons.1 hg with rfl | hgray
    · exact hreach
    · -- Another gray node is further down, out of reach.
      rcases hs.closed_reach hclosed hv hreach with hin | hdone
      · exact absurd hgray (Loop.not_mem_gray hs₀ hname hnew hin)
      · refine absurd ?_ hdone.2
        rw [hstack]
        exact mem_append_right _ (mem_cons_of_mem _ (hs₀.held g hgray))

/-- What is on the stack from the root on is its component. -/
theorem Loop.component (hs : Loop dependencies s₀ s gray name seen)
    (hs₀ : Inv dependencies s₀ gray) (hname : s₀.indices name = none)
    (hstack : s.stack = new ++ name :: s₀.stack) (hnew : ∀ v ∈ new, s₀.indices v = none)
    (hclosed : ∀ v, (v ∈ new ∨ v = name) → ∀ w ∈ dependencies v, (w ∈ new ∨ w = name) ∨ s.Done w)
    (hv : v ∈ new ∨ v = name) :
    (w ∈ new ∨ w = name) ↔ Reach dependencies v w ∧ Reach dependencies w v := by
  have hroot : ∀ {v}, (v ∈ new ∨ v = name) →
      Reach dependencies name v ∧ Reach dependencies v name := fun hv =>
    hs.reach_root hs₀ hname hstack hnew hclosed hv
  constructor
  · intro hw
    exact ⟨(hroot hv).2.trans (hroot hw).1, (hroot hw).2.trans (hroot hv).1⟩
  · rintro ⟨hvw, hwv⟩
    refine (hs.closed_reach hclosed hv hvw).resolve_right fun hdone => ?_
    refine (hs.inv.done_of_reach hdone hwv).2 ?_
    rw [hstack, mem_append, mem_cons]
    exact hv.imp_right .inl

variable (dependencies) in
/-- The nodes of a component are reported by its members, if there are several or the
    root has an edge to itself, and else not at all. -/
theorem reports_component {component : List α} (hnodup : component.Nodup)
    (hcomponent : ∀ v ∈ component, ∀ w,
      w ∈ component ↔ Reach dependencies v w ∧ Reach dependencies w v)
    (hname : name ∈ component) (hv : v ∈ component) :
    Reports dependencies v
      (if 1 < (component.insertionSort (· ≤ ·)).length ∨ name ∈ dependencies name then
        some (component.insertionSort (· ≤ ·)) else none) := by
  split_ifs with hcycle
  · refine .inr ⟨_, rfl, ?_, ?_, fun w => ?_⟩
    · rw [length_insertionSort] at hcycle
      rcases hcycle with hlength | hloop
      · obtain ⟨w, hw, hne⟩ : ∃ w ∈ component, w ≠ v := by
          by_contra hall
          push Not at hall
          rw [eq_replicate_of_mem hall, nodup_replicate] at hnodup
          omega
        obtain ⟨hvw, hwv⟩ := (hcomponent v hv w).1 hw
        exact ((reflTransGen_iff_eq_or_transGen.1 hvw).resolve_left hne).trans_left hwv
      · obtain ⟨hvname, hnamev⟩ := (hcomponent v hv name).1 hname
        exact (TransGen.trans_right hvname (.single hloop)).trans_left hnamev
    · refine ((pairwise_insertionSort (· ≤ ·) component).and
        ((perm_insertionSort (· ≤ ·) component).nodup_iff.2 hnodup)).imp ?_
      exact fun h => lt_of_le_of_ne h.1 h.2
    · rw [mem_insertionSort]
      exact hcomponent v hv w
  · refine .inl ⟨rfl, fun hon => ?_⟩
    rw [length_insertionSort, not_or] at hcycle
    obtain ⟨u, rfl⟩ : ∃ u, component = [u] :=
      length_eq_one_iff.1 (le_antisymm (not_lt.1 hcycle.1) (length_pos_of_mem hv))
    obtain rfl := mem_singleton.1 hv
    obtain rfl := mem_singleton.1 hname
    -- A cycle would begin with an edge to the node itself.
    obtain ⟨w, hedge, hback⟩ := TransGen.head'_iff.1 hon
    have hw := (hcomponent name mem_cons_self w).2 ⟨.single hedge, hback⟩
    rw [mem_singleton] at hw
    exact hcycle.2 (hw ▸ hedge)

/-- After the loop the node is black as well. -/
theorem Loop.black (hs : Loop dependencies s₀ s gray name seen)
    (hall : ∀ d ∈ dependencies name, seen d) (hv : s.indices v ≠ none) (hgray : v ∉ gray)
    (hw : w ∈ dependencies v) : s.indices w ≠ none := by
  by_cases heq : v = name
  · exact hs.met w (hall w (heq ▸ hw))
  · exact hs.inv.black v hv (by rw [mem_cons, not_or]; exact ⟨heq, hgray⟩) w hw

theorem Loop.idx_lt_own (hs : Loop dependencies s₀ s gray name seen)
    (hs₀ : Inv dependencies s₀ gray) (hname : s₀.indices name = none) (hv : v ∈ s₀.stack) :
    s.idx v < s.idx name := by
  rw [hs.idx_eq hname (hs₀.visited v hv), State.idx_of hs.own]
  exact hs₀.idx_lt (hs₀.visited v hv)

variable (hs : Loop dependencies s₀ s gray name seen)
include hs

/-- The node stays on the stack: it reaches one below it, and so a gray one. -/
theorem Loop.stay {y : α} (hs₀ : Inv dependencies s₀ gray) (hname : s₀.indices name = none)
    (hall : ∀ d ∈ dependencies name, seen d) (hsub : ∀ v ∈ s₀.stack, v ∈ s.stack)
    (hy : y ∈ s₀.stack) (hreach : Reach dependencies name y) : Inv dependencies s gray := by
  refine ⟨hs.inv.lt, hs.inv.visited, hs.inv.sorted, hs.inv.onStack, hs.inv.done,
    fun v hv hgray w hw => hs.black hall hv hgray hw,
    fun g hg => hs.inv.held g (mem_cons_of_mem _ hg),
    fun g hg => hs.inv.up g (mem_cons_of_mem _ hg), fun v hv => ?_, hs.inv.reports,
    hs.inv.silent⟩
  obtain ⟨g, hg, hle, hvg⟩ := hs.inv.down v hv
  rcases mem_cons.1 hg with rfl | hgray
  · have hlt := hs.idx_lt_own hs₀ hname hy
    obtain ⟨g', hg', hle', hyg⟩ := hs.inv.down y (hsub y hy)
    rcases mem_cons.1 hg' with rfl | hgray'
    · exact absurd hlt (not_lt_of_ge hle')
    · exact ⟨g', hgray', (hle'.trans hlt.le).trans hle, (hvg.trans hreach).trans hyg⟩
  · exact ⟨g, hgray, hle, hvg⟩

/-- The component is taken off the stack, and reported. -/
theorem Loop.pop (hs₀ : Inv dependencies s₀ gray)
    (hname : s₀.indices name = none) (hall : ∀ d ∈ dependencies name, seen d)
    (hstack : s.stack = new ++ name :: s₀.stack) (hnew : ∀ v ∈ new, s₀.indices v = none)
    (hat : LowAt dependencies s₀ name new seen s₀.index) :
    Inv dependencies
      { s with
        stack := s₀.stack
        onStack := s.onStack \ (new ++ [name]).toFinset
        cycleMap := fun v =>
          if (1 < ((new ++ [name]).insertionSort (· ≤ ·)).length ∨ name ∈ dependencies name) ∧
            v ∈ (new ++ [name]).insertionSort (· ≤ ·) then
            some ((new ++ [name]).insertionSort (· ≤ ·))
          else s.cycleMap v } gray := by
  obtain ⟨component, hcomponent⟩ : ∃ component, component = new ++ [name] := ⟨_, rfl⟩
  have hmem : ∀ v, v ∈ component ↔ (v ∈ new ∨ v = name) := fun v => by
    rw [hcomponent, mem_append, mem_singleton]
  have hsplit : s.stack = component ++ s₀.stack := by
    rw [hstack, hcomponent, append_assoc, singleton_append]
  have hstackMem : ∀ v, v ∈ s.stack ↔ v ∈ component ∨ v ∈ s₀.stack := fun v => by
    rw [hsplit, mem_append]
  have hnodup := hs.inv.nodup
  rw [hsplit, nodup_append] at hnodup
  obtain ⟨hnodup, -, hdisjoint⟩ := hnodup
  have hold : ∀ v ∈ component, v ∉ s₀.stack := fun v hv hv' => hdisjoint v hv v hv' rfl
  have hsub : ∀ v ∈ s₀.stack, v ∈ s.stack := fun v hv => (hstackMem v).2 (.inr hv)
  have hsub' : ∀ v ∈ component, v ∈ s.stack := fun v hv => (hstackMem v).2 (.inl hv)
  have hclosed : ∀ v, (v ∈ new ∨ v = name) →
      ∀ w ∈ dependencies v, (w ∈ new ∨ w = name) ∨ s.Done w :=
    fun v hv w hw => hs.closed hs₀ hname hall hstack hnew hat hv hw
  -- What is done now was done before, or is of the component.
  have hdone : ∀ v, (s.indices v ≠ none ∧ v ∉ s₀.stack) ↔ v ∈ component ∨ s.Done v := by
    intro v
    constructor
    · rintro ⟨hv, hv'⟩
      by_cases hin : v ∈ component
      · exact .inl hin
      · exact .inr ⟨hv, fun h => ((hstackMem v).1 h).elim hin hv'⟩
    · rintro (hin | ⟨hv, hnot⟩)
      · exact ⟨hs.inv.visited v (hsub' v hin), hold v hin⟩
      · exact ⟨hv, fun h => hnot (hsub v h)⟩
  rw [← hcomponent]
  refine ⟨hs.inv.lt, fun v hv => hs.inv.visited v (hsub v hv), ?_, fun v => ?_, fun v hv w hw => ?_,
    fun v hv hgray w hw => hs.black hall hv hgray hw, hs₀.held, fun g hg v hv hle => ?_,
    fun v hv => ?_, fun v hv => ?_, fun v hv => ?_⟩
  · have hsorted := hs.inv.sorted
    rw [hsplit, pairwise_append] at hsorted
    exact hsorted.2.1
  · rw [Finset.mem_sdiff, List.mem_toFinset, hs.inv.onStack, hstackMem]
    constructor
    · rintro ⟨hin | hin, hnot⟩
      · exact absurd hin hnot
      · exact hin
    · exact fun hin => ⟨.inr hin, fun h => hold v h hin⟩
  · refine (hdone w).2 ?_
    rcases (hdone v).1 hv with hin | hin
    · rw [hmem]
      exact hclosed v ((hmem v).1 hin) w hw
    · exact .inr (hs.inv.done v hin w hw)
  · exact hs.inv.up g (mem_cons_of_mem _ hg) v (hsub v hv) hle
  · obtain ⟨g, hg, hle, hreach⟩ := hs.inv.down v (hsub v hv)
    rcases mem_cons.1 hg with rfl | hgray
    · exact absurd (hs.idx_lt_own hs₀ hname hv) (not_lt_of_ge hle)
    · exact ⟨g, hgray, hle, hreach⟩
  · dsimp only
    rcases (hdone v).1 hv with hin | hin
    · have hreports := reports_component dependencies hnodup
        (fun u hu w => (hmem w).trans (hs.component hs₀ hname hstack hnew hclosed ((hmem u).1 hu)))
        ((hmem name).2 (.inr rfl)) hin
      have hsilent : s.cycleMap v = none := hs.inv.silent v fun h => h.2 (hsub' v hin)
      have hin' := (mem_insertionSort (· ≤ ·)).2 hin
      rw [hsilent]
      by_cases hcycle : 1 < (component.insertionSort (· ≤ ·)).length ∨ name ∈ dependencies name
      · rw [if_pos ⟨hcycle, hin'⟩]
        rwa [if_pos hcycle] at hreports
      · rw [if_neg (fun h => hcycle (And.left h))]
        rwa [if_neg hcycle] at hreports
    · rw [if_neg (fun h => hin.2 (hsub' v ((mem_insertionSort (· ≤ ·)).1 (And.right h))))]
      exact hs.inv.reports v hin
  · have hnot : v ∉ component ∧ ¬ s.Done v := not_or.1 fun h => hv ((hdone v).2 h)
    refine (if_neg fun h => hnot.1 ((mem_insertionSort _).1 h.2)).trans ?_
    exact hs.inv.silent v hnot.2

/-- A call that is over. -/
theorem Loop.leave (hs₀ : Inv dependencies s₀ gray)
    (hname : s₀.indices name = none) (hall : ∀ d ∈ dependencies name, seen d) :
    Post dependencies s₀ (s.leave dependencies name) gray name := by
  obtain ⟨new, low, hstack, hnew, hlow, hat⟩ := hs.out
  have hown : s.indices name ≠ none := by
    rw [hs.own]
    exact Option.some_ne_none _
  have hsub : ∀ v ∈ s₀.stack, v ∈ s.stack := fun v hv => by
    rw [hstack]
    exact mem_append_right _ (mem_cons_of_mem _ hv)
  rw [State.leave]
  split_ifs with hroot
  · rw [hlow, hs.own] at hroot
    obtain ⟨y, hy, hi, hreach⟩ := hat.reach.resolve_left fun heq => hroot (congrArg some heq)
    refine ⟨hs.stay hs₀ hname hall hsub hy hreach, fun v i => hs.keep' hname, hs.lowKeep, hown,
      new ++ [name], low, ?_, fun v hv => ?_, hlow, .inr ⟨y, hy, hi, hreach⟩, ?_⟩
    · rw [hstack, append_assoc, singleton_append]
    · rcases mem_append.1 hv with hv | hv
      · exact hnew v hv
      · rwa [mem_singleton.1 hv]
    · rintro v hv (⟨x, hx, hedge⟩ | h)
      · refine hat.bound v hv ?_
        rcases mem_append.1 hx with hx | hx
        · exact .inl ⟨x, hx, hedge⟩
        · exact .inr (hall v (mem_singleton.1 hx ▸ hedge))
      · exact h.elim
  · rw [not_not, hlow, hs.own] at hroot
    obtain rfl : low = s₀.index := Option.some.inj hroot
    have hnameNew : name ∉ new := fun hmem => by
      have hnodup := hs.inv.nodup
      rw [hstack, nodup_append] at hnodup
      exact hnodup.2.2 name hmem name mem_cons_self rfl
    have hpop : popUntil name s.stack = (new ++ [name], s₀.stack) := by
      rw [hstack, popUntil_append hnameNew]
    rw [hpop]
    refine ⟨hs.pop hs₀ hname hall hstack hnew hat, fun v i => hs.keep' hname, hs.lowKeep, hown,
      [], s₀.index, rfl, fun v hv => (by cases hv), hlow, .inl rfl, ?_⟩
    rintro v hv (⟨x, hx, -⟩ | h)
    · cases hx
    · exact h.elim

omit hs

/-! ## The algorithm -/

/-- How many of the nodes have not been visited. -/
def State.unvisited (s : State α) (names : List α) : ℕ :=
  (names.toFinset.filter fun v => s.indices v = none).card

theorem State.unvisited_le : s.unvisited names ≤ names.length :=
  (Finset.card_filter_le _ _).trans names.toFinset_card_le

/-- In the loop there are fewer, as the node has been entered. -/
theorem Loop.unvisited_lt (hs : Loop dependencies s₀ s gray name seen)
    (hname : s₀.indices name = none) (hmem : name ∈ names) :
    s.unvisited names < s₀.unvisited names := by
  refine Finset.card_lt_card ⟨fun v hv => ?_, fun hsub => ?_⟩
  · rw [Finset.mem_filter] at hv ⊢
    refine ⟨hv.1, ?_⟩
    by_contra hne
    obtain ⟨i, hi⟩ := Option.ne_none_iff_exists'.1 hne
    rw [hs.keep' hname hi] at hv
    cases hv.2
  · have hin := hsub (Finset.mem_filter.2 ⟨List.mem_toFinset.2 hmem, hname⟩)
    rw [Finset.mem_filter, hs.own] at hin
    cases hin.2

/-- The loop visits the successors that are left, if its calls do what they should. -/
theorem Loop.foldlM {connect : State α → α → Option (State α)} (hs₀ : Inv dependencies s₀ gray)
    (hname : s₀.indices name = none) (hmem : name ∈ names)
    (hconnect : ∀ s d, Inv dependencies s (name :: gray) → s.indices d = none →
      d ∈ dependencies name → s.unvisited names < s₀.unvisited names →
        ∃ s', connect s d = some s' ∧ Post dependencies s s' (name :: gray) d) :
    ∀ (l : List α) (s : State α) (seen : α → Prop), (∀ d ∈ l, d ∈ dependencies name) →
      Loop dependencies s₀ s gray name seen →
        ∃ s' seen', l.foldlM (fun s dependency =>
          match s.indices dependency with
          | none => do
            let s ← connect s dependency
            (s.lowlinks dependency).bind (s.lower name)
          | some i => if dependency ∈ s.onStack then s.lower name i else some s) s = some s' ∧
            Loop dependencies s₀ s' gray name seen' ∧ ∀ d, d ∈ l ∨ seen d → seen' d := by
  intro l
  induction l with
  | nil => exact fun s seen _ hs => ⟨s, seen, rfl, hs, fun d hd => hd.resolve_left not_mem_nil⟩
  | cons d l ih =>
    intro s seen hsub hs
    have hedge := hsub d mem_cons_self
    obtain ⟨s₁, hstep, hs₁⟩ : ∃ s₁, (match s.indices d with
        | none => (connect s d).bind fun s => (s.lowlinks d).bind (s.lower name)
        | some i => if d ∈ s.onStack then s.lower name i else some s) = some s₁ ∧
          Loop dependencies s₀ s₁ gray name fun v => v = d ∨ seen v := by
      rcases hd : s.indices d with _ | i
      · obtain ⟨s₁, hcall, hpost⟩ := hconnect s d hs.inv hd hedge (hs.unvisited_lt hname hmem)
        rw [hcall]
        exact hs.called hs₀ hname hedge hd hpost
      · exact hs.visited hs₀ hname hedge hd
    obtain ⟨s', seen', hrun, hs', hseen⟩ :=
      ih s₁ _ (fun v hv => hsub v (mem_cons_of_mem _ hv)) hs₁
    refine ⟨s', seen', ?_, hs', fun v hv => hseen v ?_⟩
    · rw [foldlM_cons]
      exact (congrArg (Option.bind · _) hstep).trans hrun
    · rw [mem_cons] at hv
      tauto

/-- A call returns, with enough fuel for the nodes that have not been visited. -/
theorem strongConnect_spec (hdeps : ∀ v, ∀ w ∈ dependencies v, w ∈ names) {fuel : ℕ} :
    ∀ {s : State α} {gray : List α} {name : α}, Inv dependencies s gray →
      s.indices name = none → name ∈ names → (∀ g ∈ gray, Reach dependencies g name) →
      s.unvisited names ≤ fuel →
        ∃ s', strongConnect dependencies fuel s name = some s' ∧
          Post dependencies s s' gray name := by
  induction fuel with
  | zero =>
    intro s gray name _ hname hmem _ hfuel
    have hin : name ∈ names.toFinset.filter fun v => s.indices v = none :=
      Finset.mem_filter.2 ⟨List.mem_toFinset.2 hmem, hname⟩
    exact absurd (Finset.card_pos.2 ⟨name, hin⟩) (not_lt_of_ge hfuel)
  | succ fuel ih =>
    intro s gray name hs hname hmem hgray hfuel
    have hconnect : ∀ s₁ d, Inv dependencies s₁ (name :: gray) → s₁.indices d = none →
        d ∈ dependencies name → s₁.unvisited names < s.unvisited names →
          ∃ s', strongConnect dependencies fuel s₁ d = some s' ∧
            Post dependencies s₁ s' (name :: gray) d := by
      intro s₁ d hs₁ hd hedge hlt
      refine ih hs₁ hd (hdeps name d hedge) (fun g hg => ?_) (by omega)
      rcases mem_cons.1 hg with rfl | hg
      · exact .single hedge
      · exact (hgray g hg).tail hedge
    obtain ⟨s', seen, hrun, hs', hseen⟩ := Loop.foldlM hs hname hmem hconnect _ _ _
      (fun d hd => hd) (loop_enter hs hname hgray)
    refine ⟨s'.leave dependencies name, ?_, hs'.leave hs hname fun d hd => hseen d (.inl hd)⟩
    rw [strongConnect]
    exact congrArg (Option.bind · fun s => some (s.leave dependencies name)) hrun

/-- After a call from the top all nodes that have been visited are done. -/
theorem Inv.done_top (hs : Inv dependencies s []) (hv : s.indices v ≠ none) : s.Done v := by
  refine ⟨hv, fun h => ?_⟩
  obtain ⟨g, hg, -⟩ := hs.down v h
  cases hg

variable (dependencies names) in
/-- The algorithm returns, and the cycle map says of each node what it should. -/
theorem run_spec (hdeps : ∀ v, ∀ w ∈ dependencies v, w ∈ names) :
    ∃ s, run dependencies names = some s ∧ ∀ v, Reports dependencies v (s.cycleMap v) := by
  have hrun : ∀ (l : List α) (s : State α), (∀ v ∈ l, v ∈ names) → Inv dependencies s [] →
      ∃ s', l.foldlM (fun s name => if s.indices name = none then
          strongConnect dependencies names.length s name else some s) s = some s' ∧
        Inv dependencies s' [] ∧ ∀ v, v ∈ l ∨ s.indices v ≠ none → s'.indices v ≠ none := by
    intro l
    induction l with
    | nil => exact fun s _ hs => ⟨s, rfl, hs, fun v hv => hv.resolve_left not_mem_nil⟩
    | cons name l ih =>
      intro s hsub hs
      obtain ⟨s₁, hstep, hs₁, hname, hkeep⟩ : ∃ s₁, (if s.indices name = none then
          strongConnect dependencies names.length s name else some s) = some s₁ ∧
          Inv dependencies s₁ [] ∧ s₁.indices name ≠ none ∧
            ∀ v, s.indices v ≠ none → s₁.indices v ≠ none := by
        split_ifs with hname
        · obtain ⟨s₁, hcall, hpost⟩ := strongConnect_spec hdeps hs hname
            (hsub name mem_cons_self) (fun g hg => by cases hg) State.unvisited_le
          refine ⟨s₁, hcall, hpost.inv, hpost.visited, fun v hv => ?_⟩
          obtain ⟨i, hi⟩ := Option.ne_none_iff_exists'.1 hv
          rw [hpost.keep v i hi]
          exact Option.some_ne_none _
        · exact ⟨s, rfl, hs, hname, fun v hv => hv⟩
      obtain ⟨s', hrun, hs', hvisited⟩ := ih s₁ (fun v hv => hsub v (mem_cons_of_mem _ hv)) hs₁
      refine ⟨s', ?_, hs', fun v hv => hvisited v ?_⟩
      · rw [foldlM_cons]
        exact (congrArg (Option.bind · _) hstep).trans hrun
      · rcases hv with hv | hv
        · rcases mem_cons.1 hv with rfl | hv
          · exact .inr hname
          · exact .inl hv
        · exact .inr (hkeep v hv)
  obtain ⟨s, hs, hinv, hvisited⟩ := hrun names {} (fun v hv => hv) inv_start
  refine ⟨s, hs, fun v => ?_⟩
  by_cases hv : s.indices v = none
  · -- Not a node of the graph: on a cycle something has an edge to it.
    refine .inl ⟨hinv.silent v fun h => h.1 hv, fun hon => ?_⟩
    obtain ⟨w, -, hedge⟩ := TransGen.tail'_iff.1 hon
    exact hvisited v (.inl (hdeps w v hedge)) hv
  · exact hinv.reports v (hinv.done_top hv)

end Tarjan
