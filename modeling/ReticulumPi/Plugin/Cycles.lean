import Mathlib.Data.String.Basic
import ReticulumPi.Lib.Tarjan
import ReticulumPi.Plugin.Dependencies

/-!
# Cycles of hard dependencies

What `_topo_sort_plugins` records in `_plugin_dependency_cycles` before it orders the
plugins: those on a cycle of hard dependencies, each with the members of its strongly
connected component. A plugin that has been blocked has no dependencies, and what is
not registered is not depended on.

The plugins with invalid dependency names have been blocked by then, so that none of
the others raises (`Readable`).
-/

namespace ReticulumPi.Plugin

open Relation

variable (plugins : Dict String Registered)

/-- `hard_dependencies` of the plugin of that name, whose reading may raise. -/
def hardDependencies (name : String) : Option (List String) :=
  match plugins.get? name with
  | none => some []
  | some plugin =>
    if plugin.base.pluginState ≠ .blocked then
      plugin.dependencyNames.map fun names => names.filter (· ∈ plugins.keys)
    else some []

/-- The same where nothing raises: the graph of the algorithm. -/
def successors (name : String) : List String :=
  (hardDependencies plugins name).getD []

/-- `_plugin_dependency_cycles`, unless the names of some plugin raise. -/
def pluginDependencyCycles :
    Option (String → Option (List String)) :=
  if plugins.keys.any fun name => (hardDependencies plugins name).isNone then none
  else
    (Tarjan.run (successors plugins) plugins.keys).map fun s => s.cycleMap

/-! ## The graph -/

/-- The plugin of the first name has a hard dependency on the second one. -/
def HardDependency (name dependency : String) : Prop :=
  ∃ plugin, plugins.get? name = some plugin ∧ plugin.base.pluginState ≠ .blocked ∧
    plugin.HardDependsOn dependency

/-- A plugin is on a cycle of hard dependencies. -/
def OnCycle (name : String) : Prop :=
  TransGen (HardDependency plugins) name name

/-- The plugins depend on each other, directly or through others, or are one. -/
def SameComponent (name name' : String) : Prop :=
  ReflTransGen (HardDependency plugins) name name' ∧
    ReflTransGen (HardDependency plugins) name' name

/-- The hard dependencies of the plugins that are not blocked are valid. -/
def Readable : Prop :=
  ∀ name plugin, plugins.get? name = some plugin → plugin.base.pluginState ≠ .blocked →
    plugin.dependencyNames ≠ none

variable {plugins : Dict String Registered} {name dependency v w : String}

theorem HardDependency.mem_keys (h : HardDependency plugins name dependency) :
    name ∈ plugins.keys := by
  obtain ⟨plugin, hget, -⟩ := h
  exact Dict.mem_keys.2 ⟨plugin, hget⟩

/-- The edges of the algorithm are the dependencies on what is registered. -/
theorem edge_iff : Tarjan.Edge (successors plugins) name dependency ↔
    HardDependency plugins name dependency ∧ dependency ∈ plugins.keys := by
  rw [Tarjan.Edge, successors, hardDependencies, HardDependency]
  rcases hget : plugins.get? name with _ | plugin
  · simp
  · by_cases hblocked : plugin.base.pluginState = .blocked
    · simp [hblocked]
    · rcases hnames : plugin.dependencyNames with _ | names
      all_goals simp [hblocked, hnames, Registered.HardDependsOn]

theorem reach_declared (h : Tarjan.Reach (successors plugins) v w) :
    ReflTransGen (HardDependency plugins) v w := by
  induction h with
  | refl => exact .refl
  | tail _ hedge ih => exact ih.tail (edge_iff.1 hedge).1

/-- Between registered plugins. -/
theorem reach_iff (hw : w ∈ plugins.keys) :
    Tarjan.Reach (successors plugins) v w ↔ ReflTransGen (HardDependency plugins) v w := by
  refine ⟨reach_declared, fun h => ?_⟩
  -- A plugin with a dependency is registered, so that the way there can be gone.
  induction h with
  | refl => exact .refl
  | tail _ hedge ih => exact (ih hedge.mem_keys).tail (edge_iff.2 ⟨hedge, hw⟩)

theorem mem_keys_of_reach (hw : w ∈ plugins.keys)
    (h : ReflTransGen (HardDependency plugins) v w) : v ∈ plugins.keys := by
  rcases ReflTransGen.cases_head h with rfl | ⟨u, hedge, -⟩
  · exact hw
  · exact hedge.mem_keys

theorem OnCycle.mem_keys (h : OnCycle plugins v) : v ∈ plugins.keys := by
  obtain ⟨w, hedge, -⟩ := TransGen.head'_iff.1 h
  exact hedge.mem_keys

theorem onCycle_iff : Tarjan.OnCycle (successors plugins) v ↔ OnCycle plugins v := by
  constructor
  · intro h
    obtain ⟨w, hedge, hback⟩ := TransGen.head'_iff.1 h
    exact .head' (edge_iff.1 hedge).1 (reach_declared hback)
  · intro h
    obtain ⟨w, hedge, hback⟩ := TransGen.head'_iff.1 h
    have hw := mem_keys_of_reach h.mem_keys hback
    exact .head' (edge_iff.2 ⟨hedge, hw⟩) ((reach_iff h.mem_keys).2 hback)

theorem hardDependencies_isSome (h : Readable plugins) (name : String) :
    (hardDependencies plugins name).isNone = false := by
  rw [hardDependencies]
  rcases hget : plugins.get? name with _ | plugin
  · rfl
  · by_cases hblocked : plugin.base.pluginState = .blocked
    · simp [hblocked]
    · obtain ⟨names, hnames⟩ := Option.ne_none_iff_exists'.1 (h name plugin hget hblocked)
      simp [hblocked, hnames]

/-- The plugins that are reported are those on a cycle of hard dependencies, each with
    exactly the members of its component, in order. -/
theorem pluginDependencyCycles_exact (h : Readable plugins) :
    ∃ cycles, pluginDependencyCycles plugins = some cycles ∧ ∀ name,
      (cycles name ≠ none ↔ OnCycle plugins name) ∧
      ∀ members, cycles name = some members → members.Pairwise (· < ·) ∧
        ∀ name', name' ∈ members ↔ SameComponent plugins name name' := by
  obtain ⟨s, hrun, hreports⟩ := Tarjan.run_spec (successors plugins) plugins.keys
    fun v w hedge => (edge_iff.1 hedge).2
  refine ⟨s.cycleMap, ?_, fun name => ?_⟩
  · rw [pluginDependencyCycles, if_neg, hrun]
    · rfl
    · simp [hardDependencies_isSome h]
  · rcases hreports name with ⟨hnone, hon⟩ | ⟨members, hsome, hon, hsorted, hmembers⟩
    · rw [hnone, ← onCycle_iff]
      exact ⟨⟨fun hne => absurd rfl hne, fun h => absurd h hon⟩, fun members h => by cases h⟩
    · rw [hsome]
      have hcycle := onCycle_iff.1 hon
      refine ⟨⟨fun _ => hcycle, fun _ => Option.some_ne_none _⟩, fun members' heq => ?_⟩
      cases heq
      refine ⟨hsorted, fun name' => (hmembers name').trans ⟨fun h => ?_, fun h => ?_⟩⟩
      · exact ⟨reach_declared h.1, reach_declared h.2⟩
      · have hin := mem_keys_of_reach hcycle.mem_keys h.2
        exact ⟨(reach_iff hin).2 h.1, (reach_iff hcycle.mem_keys).2 h.2⟩

/-- Plugins on one cycle, one that depends on itself, and two that depend on those and on
    one that is not there. -/
def knots : Dict String Registered :=
  [("a", ["b"]), ("b", ["c", "d"]), ("c", ["a"]), ("d", ["d"]), ("e", ["a", "f"]),
    ("f", ["gone"])].foldl (fun plugins e =>
      plugins.set e.1 ⟨{ stateChangedMonotonic := 0 }, some e.2⟩) ∅

theorem pluginDependencyCycles_knots :
    (∃ cycles, pluginDependencyCycles knots = some cycles ∧
      cycles "a" = some ["a", "b", "c"] ∧ cycles "d" = some ["d"] ∧ cycles "e" = none) ∧
    ∃ cycles, pluginDependencyCycles knots = some cycles ∧ ∀ name,
      (cycles name ≠ none ↔ OnCycle knots name) ∧
      ∀ members, cycles name = some members → members.Pairwise (· < ·) ∧
        ∀ name', name' ∈ members ↔ SameComponent knots name name' := by
  have hvalid : ∀ e ∈ knots.entries, e.2.dependencyNames ≠ none := by decide +kernel
  refine ⟨⟨_, rfl, ?_, ?_, ?_⟩, pluginDependencyCycles_exact ?_⟩
  · decide +kernel
  · decide +kernel
  · decide +kernel
  · exact fun name plugin hget _ => hvalid (name, plugin) (Dict.get?_eq_some_iff.1 hget)

end ReticulumPi.Plugin
