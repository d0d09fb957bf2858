import ReticulumPi.Plugin.Dependencies

/-!
# When a provider is lost

`_on_plugin_ready_lost` is called when a plugin is no longer ready. It blocks
the ready plugins that hard-depend on it, and those that hard-depend on these:
it goes over all plugins until one round has changed nothing.

However the plugins are stored and whatever they depend on, the rounds come to
an end, and blocked are exactly the plugins that are ready and lead to the
provider through ready ones (`Affected`, `onPluginReadyLost_spec`). The stop and
the clean-up of the blocked plugins, which are left to threads of their own, are
not part of the model.
-/

namespace ReticulumPi.Plugin

open List

/-! ## The propagation -/

/-- How far the loop has come. -/
structure Propagation where
  plugins : Dict String Registered
  /-- The provider, and what was blocked. -/
  unavailable : List String
  /-- What was blocked, in order, and for what reason. -/
  blocked : List (String × String) := []
  changed : Bool := false

/-- `f"hard dependency '{lost}' lost readiness"` -/
def lostReason (lost : String) : String := "hard dependency '" ++ lost ++ "' lost readiness"

namespace Propagation

/-- The body of the inner loop, with the clock as it is for each plugin. -/
def visit (clock : String → ℤ) (s : Propagation) (name : String) : Propagation :=
  match s.plugins.get? name with
  | none => s
  | some plugin =>
    if name ∈ s.unavailable ∨ plugin.base.pluginState ≠ .ready then s
    else
      match plugin.dependencyNames with
      | none => s
      | some dependencies =>
        match dependencies.find? (· ∈ s.unavailable) with
        | none => s
        | some lost =>
          match plugin.base.markDependencyBlocked (lostReason lost) (clock name) with
          | (_, false) => s
          | (base, true) =>
            { plugins := s.plugins.set name { plugin with base := base }
              unavailable := name :: s.unavailable
              blocked := s.blocked ++ [(name, lostReason lost)]
              changed := true }

/-- The inner loop. -/
def round (clock : String → ℤ) (names : List String) (s : Propagation) : Propagation :=
  names.foldl (visit clock) { s with changed := false }

/-- The outer loop, if it ends within so many rounds. -/
def rounds (clock : String → ℤ) (names : List String) : ℕ → Propagation → Option Propagation
  | 0, _ => none
  | fuel + 1, s =>
    let s := round clock names s
    if s.changed then rounds clock names fuel s else some s

end Propagation

/-- `_on_plugin_ready_lost`, for the plugin of that name: the plugins afterwards, and which were
    blocked, for what reason; `none` if it has not ended after so many rounds. -/
def onPluginReadyLost (clock : String → ℤ) (shuttingDown : Bool) (fuel : ℕ)
    (plugins : Dict String Registered) (provider : String) :
    Option (Dict String Registered × List (String × String)) :=
  if shuttingDown ∨ provider ∉ plugins.keys then some (plugins, [])
  else
    (Propagation.rounds clock plugins.keys fuel ⟨plugins, [provider], [], false⟩).map fun s =>
      (s.plugins, s.blocked)

/-! ## What it is for -/

/-- A ready plugin that hard-depends on the provider, directly or through other ready plugins. -/
inductive Affected (plugins : Dict String Registered) (provider : String) : String → Prop
  | direct {name : String} {plugin : Registered} (hget : plugins.get? name = some plugin)
      (hready : plugin.base.pluginState = .ready) (hne : name ≠ provider)
      (hdepends : plugin.HardDependsOn provider) : Affected plugins provider name
  | through {name dependency : String} {plugin : Registered}
      (hget : plugins.get? name = some plugin) (hready : plugin.base.pluginState = .ready)
      (hne : name ≠ provider) (hdepends : plugin.HardDependsOn dependency)
      (h : Affected plugins provider dependency) : Affected plugins provider name

/-- The affected plugins are blocked, each over a dependency that was lost, and nothing else is
    touched. -/
structure Propagated (clock : String → ℤ) (plugins : Dict String Registered) (provider : String)
    (after : Dict String Registered) : Prop where
  blocked : ∀ name plugin, plugins.get? name = some plugin → Affected plugins provider name →
    ∃ lost, plugin.HardDependsOn lost ∧ (lost = provider ∨ Affected plugins provider lost) ∧
      after.get? name = some { plugin with
        base := plugin.base.leave .blocked (some (lostReason lost)) (clock name) }
  kept : ∀ name, ¬ Affected plugins provider name → after.get? name = plugins.get? name

/-! ## One visit -/

namespace Propagation

variable {clock : String → ℤ} {s s' : Propagation} {name provider : String}
  {plugins : Dict String Registered} {plugin : Registered} {names : List String}

/-- A visit changes nothing, or blocks a ready plugin over a dependency that is unavailable. -/
theorem visit_cases (clock : String → ℤ) (s : Propagation) (name : String) :
    (s.visit clock name = s ∧ ∀ plugin lost, s.plugins.get? name = some plugin →
      plugin.base.pluginState = .ready → plugin.HardDependsOn lost → lost ∈ s.unavailable →
      name ∈ s.unavailable) ∨
    ∃ plugin lost, s.plugins.get? name = some plugin ∧ name ∉ s.unavailable ∧
      plugin.base.pluginState = .ready ∧ plugin.HardDependsOn lost ∧ lost ∈ s.unavailable ∧
      s.visit clock name =
        { plugins := s.plugins.set name { plugin with
            base := plugin.base.leave .blocked (some (lostReason lost)) (clock name) }
          unavailable := name :: s.unavailable
          blocked := s.blocked ++ [(name, lostReason lost)]
          changed := true } := by
  rw [visit]
  split
  next hget => exact .inl ⟨rfl, fun plugin lost h => by rw [hget] at h; cases h⟩
  next plugin hget =>
    have same : ∀ {q : Registered}, s.plugins.get? name = some q → q = plugin := fun h =>
      Option.some.inj (h.symm.trans hget)
    split_ifs with hskip
    · refine .inl ⟨rfl, fun q lost h hready _ _ => ?_⟩
      obtain rfl := same h
      exact hskip.resolve_right (not_not.2 hready)
    · obtain ⟨hname, hready⟩ := not_or.1 hskip
      have hready := not_not.1 hready
      split
      next hnone =>
        refine .inl ⟨rfl, fun q lost h _ hdep _ => ?_⟩
        obtain rfl := same h
        obtain ⟨names, hnames, -⟩ := hdep
        rw [hnone] at hnames
        cases hnames
      next dependencies hnames =>
        split
        next hfind =>
          refine .inl ⟨rfl, fun q lost h _ hdep hlost => ?_⟩
          obtain rfl := same h
          obtain ⟨names, hnames', hmem⟩ := hdep
          obtain rfl := Option.some.inj (hnames.symm.trans hnames')
          exact absurd hlost (by simpa using find?_eq_none.1 hfind lost hmem)
        next lost hfind =>
          have hlost : lost ∈ s.unavailable := by simpa using find?_some hfind
          have hdep : plugin.HardDependsOn lost :=
            ⟨dependencies, hnames, mem_of_find?_eq_some hfind⟩
          have hmark : plugin.base.markDependencyBlocked (lostReason lost) (clock name) =
              (plugin.base.leave .blocked (some (lostReason lost)) (clock name), true) := by
            rw [PluginBase.markDependencyBlocked, if_neg (by simp [hready])]
          rw [hmark]
          exact .inr ⟨plugin, lost, hget, hname, hready, hdep, hlost, rfl⟩

/-- What was blocked so far is affected, and all else is as it was. -/
structure Sound (clock : String → ℤ) (plugins : Dict String Registered) (provider : String)
    (s : Propagation) : Prop where
  nodup : s.unavailable.Nodup
  keys : ∀ name ∈ s.unavailable, name ∈ plugins.keys
  hasProvider : provider ∈ s.unavailable
  affected : ∀ name ∈ s.unavailable, name ≠ provider → ∃ plugin lost,
    plugins.get? name = some plugin ∧ Affected plugins provider name ∧
    plugin.HardDependsOn lost ∧ (lost = provider ∨ Affected plugins provider lost) ∧
    s.plugins.get? name = some { plugin with
      base := plugin.base.leave .blocked (some (lostReason lost)) (clock name) }
  kept : ∀ name, name ∉ s.unavailable ∨ name = provider →
    s.plugins.get? name = plugins.get? name

theorem Sound.visit (h : s.Sound clock plugins provider) (name : String) :
    (s.visit clock name).Sound clock plugins provider := by
  rcases visit_cases clock s name with
    ⟨hsame, -⟩ | ⟨plugin, lost, hget, hname, hready, hdep, hlost, hs⟩
  · rwa [hsame]
  rw [hs]
  have hne : name ≠ provider := fun heq => hname (heq ▸ h.hasProvider)
  have hget₀ : plugins.get? name = some plugin := (h.kept name (.inl hname)).symm.trans hget
  have hlost' : lost = provider ∨ Affected plugins provider lost := by
    by_cases heq : lost = provider
    · exact .inl heq
    · obtain ⟨_, _, _, haff, -⟩ := h.affected lost hlost heq
      exact .inr haff
  have haff : Affected plugins provider name := by
    rcases hlost' with rfl | hlost'
    · exact .direct hget₀ hready hne hdep
    · exact .through hget₀ hready hne hdep hlost'
  refine ⟨nodup_cons.2 ⟨hname, h.nodup⟩, fun n hn => ?_, mem_cons_of_mem _ h.hasProvider,
    fun n hn hnp => ?_, fun n hn => ?_⟩
  · rcases mem_cons.1 hn with rfl | hn
    · exact Dict.mem_keys.2 ⟨plugin, hget₀⟩
    · exact h.keys n hn
  · rcases mem_cons.1 hn with rfl | hn
    · exact ⟨plugin, lost, hget₀, haff, hdep, hlost', Dict.get?_set_self⟩
    · obtain ⟨q, l, hq, ha, hd, hl, hs⟩ := h.affected n hn hnp
      refine ⟨q, l, hq, ha, hd, hl, ?_⟩
      have hn' : n ≠ name := fun heq => hname (heq ▸ hn)
      rwa [Dict.get?_set_of_ne hn']
  · have hn' : n ≠ name := by
      rintro rfl
      exact hn.elim (fun hn => hn mem_cons_self) hne
    rw [Dict.get?_set_of_ne hn']
    exact h.kept n (hn.imp_left fun hn hmem => hn (mem_cons_of_mem _ hmem))

/-! ## One round -/

theorem Sound.foldl (h : s.Sound clock plugins provider) (names : List String) :
    (names.foldl (Propagation.visit clock) s).Sound clock plugins provider := by
  induction names generalizing s with
  | nil => exact h
  | cons name names ih => exact ih (h.visit name)

theorem Sound.round (h : s.Sound clock plugins provider) (names : List String) :
    (s.round clock names).Sound clock plugins provider :=
  Sound.foldl (s := { s with changed := false })
    ⟨h.nodup, h.keys, h.hasProvider, h.affected, h.kept⟩ names

theorem changed_foldl (hs : s.changed = true) (names : List String) :
    (names.foldl (Propagation.visit clock) s).changed = true := by
  induction names generalizing s with
  | nil => exact hs
  | cons name names ih =>
    refine ih ?_
    rcases visit_cases clock s name with ⟨hsame, -⟩ | ⟨_, _, _, _, _, _, _, heq⟩
    · rwa [hsame]
    · rw [heq]

/-- The names of a list of visits that have not changed anything: none has a plugin to block. -/
theorem foldl_of_not_changed (hs : (names.foldl (Propagation.visit clock) s).changed = false) :
    names.foldl (Propagation.visit clock) s = s ∧ ∀ name ∈ names, ∀ plugin lost,
      s.plugins.get? name = some plugin → plugin.base.pluginState = .ready →
      plugin.HardDependsOn lost → lost ∈ s.unavailable → name ∈ s.unavailable := by
  induction names generalizing s with
  | nil => exact ⟨rfl, fun _ h => nomatch h⟩
  | cons name names ih =>
    rcases visit_cases clock s name with ⟨hsame, hno⟩ | ⟨_, _, _, _, _, _, _, heq⟩
    · rw [foldl_cons, hsame] at hs ⊢
      obtain ⟨hfold, hall⟩ := ih hs
      refine ⟨hfold, fun n hn => ?_⟩
      rcases mem_cons.1 hn with rfl | hn
      · exact hno
      · exact hall n hn
    · -- A plugin was blocked, and the flag stays.
      rw [foldl_cons, heq, changed_foldl rfl] at hs
      cases hs

/-- Each visit that changes something makes one more plugin unavailable. -/
theorem length_le_foldl (clock : String → ℤ) (s : Propagation) (names : List String) :
    s.unavailable.length ≤ (names.foldl (Propagation.visit clock) s).unavailable.length ∧
      ((names.foldl (Propagation.visit clock) s).changed = true → s.changed = false →
        s.unavailable.length < (names.foldl (Propagation.visit clock) s).unavailable.length) := by
  induction names generalizing s with
  | nil => exact ⟨Nat.le_refl _, fun h h' => by rw [foldl_nil, h'] at h; cases h⟩
  | cons name names ih =>
    rw [foldl_cons]
    obtain ⟨hle, hlt⟩ := ih (s.visit clock name)
    rcases visit_cases clock s name with ⟨hsame, -⟩ | ⟨_, _, _, _, _, _, _, heq⟩
    · rw [hsame] at hle hlt ⊢
      exact ⟨hle, hlt⟩
    · have hgrow : s.unavailable.length < (s.visit clock name).unavailable.length := by
        rw [heq]
        exact Nat.lt_succ_self _
      exact ⟨Nat.le_trans (Nat.le_of_lt hgrow) hle, fun _ _ => Nat.lt_of_lt_of_le hgrow hle⟩

/-! ## All rounds -/

theorem Sound.length_le (h : s.Sound clock plugins provider) :
    s.unavailable.length ≤ plugins.keys.length :=
  (h.nodup.subperm h.keys).length_le

/-- A round that changes nothing leaves nothing to block. -/
theorem Sound.propagated (h : s.Sound clock plugins provider)
    (hs : (s.round clock plugins.keys).changed = false) :
    Propagated clock plugins provider (s.round clock plugins.keys).plugins := by
  obtain ⟨hround, hall⟩ := foldl_of_not_changed hs
  have hclosed : ∀ name, Affected plugins provider name → name ∈ s.unavailable := by
    intro name haff
    -- By induction on the way to the provider.
    have visited : ∀ {name : String} {plugin : Registered} {lost : String},
        plugins.get? name = some plugin → plugin.base.pluginState = .ready →
        plugin.HardDependsOn lost → lost ∈ s.unavailable → name ∈ s.unavailable := by
      intro name plugin lost hget hready hdep hlost
      by_contra hname
      exact hname (hall name (Dict.mem_keys.2 ⟨plugin, hget⟩) plugin lost
        ((h.kept name (.inl hname)).trans hget) hready hdep hlost)
    induction haff with
    | direct hget hready hne hdep => exact visited hget hready hdep h.hasProvider
    | through hget hready hne hdep _ ih => exact visited hget hready hdep ih
  have hplugins : (s.round clock plugins.keys).plugins = s.plugins := by
    rw [Propagation.round, hround]
  rw [hplugins]
  have hne : ∀ {name : String}, Affected plugins provider name → name ≠ provider := fun haff => by
    cases haff <;> assumption
  constructor
  · intro name plugin hget haff
    obtain ⟨q, lost, hq, -, hdep, hlost, hafter⟩ := h.affected name (hclosed name haff) (hne haff)
    obtain rfl := Option.some.inj (hget.symm.trans hq)
    exact ⟨lost, hdep, hlost, hafter⟩
  · intro name hno
    refine h.kept name ?_
    by_contra hmem
    obtain ⟨hmem, hnp⟩ := not_or.1 hmem
    obtain ⟨_, _, _, haff, -⟩ := h.affected name (not_not.1 hmem) hnp
    exact hno haff

theorem rounds_spec (h : s.Sound clock plugins provider) (fuel : ℕ)
    (hfuel : plugins.keys.length < s.unavailable.length + fuel) :
    ∃ after, rounds clock plugins.keys fuel s = some after ∧
      Propagated clock plugins provider after.plugins := by
  induction fuel generalizing s with
  | zero => exact absurd h.length_le (by omega)
  | succ fuel ih =>
    have hround := h.round plugins.keys
    rw [rounds]
    rcases hchanged : (s.round clock plugins.keys).changed with _ | _
    · exact ⟨_, if_neg Bool.false_ne_true, h.propagated hchanged⟩
    · have hgrow := (length_le_foldl clock { s with changed := false }
        plugins.keys).2 hchanged rfl
      rw [if_pos rfl]
      exact ih hround (by
        rw [round]
        dsimp only at hgrow
        omega)

/-- More rounds make no difference once they have ended. -/
theorem rounds_mono {fuel : ℕ} (h : rounds clock names fuel s = some s') {fuel' : ℕ}
    (hle : fuel ≤ fuel') : rounds clock names fuel' s = some s' := by
  induction fuel generalizing s fuel' with
  | zero => cases h
  | succ fuel ih =>
    obtain ⟨fuel', rfl⟩ := Nat.exists_eq_succ_of_ne_zero (n := fuel') (by omega)
    rw [rounds] at h ⊢
    split_ifs at h ⊢ with hchanged
    · exact ih h (by omega)
    · exact h

end Propagation

/-! ## The whole -/

/-- However the plugins are stored and whatever they depend on, when the application is not
    shutting down the loss of a provider blocks the ready plugins that lead to it through ready
    ones, touches nothing else, and comes to an end. -/
theorem onPluginReadyLost_spec (clock : String → ℤ) (plugins : Dict String Registered)
    (provider : String) (hprovider : provider ∈ plugins.keys) :
    ∃ after blocked, Propagated clock plugins provider after ∧ ∀ fuel, plugins.keys.length ≤ fuel →
      onPluginReadyLost clock false fuel plugins provider = some (after, blocked) := by
  have hstart : Propagation.Sound clock plugins provider ⟨plugins, [provider], [], false⟩ := by
    refine ⟨nodup_cons.2 ⟨not_mem_nil, .nil⟩, fun n hn => ?_, mem_cons_self,
      fun n hn hnp => ?_, fun _ _ => rfl⟩
    · rwa [mem_singleton.1 hn]
    · exact absurd (mem_singleton.1 hn) hnp
  obtain ⟨s, hrounds, hspec⟩ := Propagation.rounds_spec hstart plugins.keys.length
    (by simp)
  refine ⟨s.plugins, s.blocked, hspec, fun fuel hfuel => ?_⟩
  rw [onPluginReadyLost, if_neg (by simp [hprovider]), Propagation.rounds_mono hrounds hfuel]
  rfl

/-- A plugin in that state, with those hard dependencies. -/
def standing (state : PluginState) (dependencies : List String) : Registered :=
  ⟨{ pluginState := state, stateChangedMonotonic := 0 }, some dependencies⟩

/-- A provider, and two plugins that depend on each other and one of them on the provider. -/
def ring : Dict String Registered :=
  ((Dict.empty.set "first" (standing .ready ["second"])).set
    "second" (standing .ready ["first", "lost"])).set "lost" (standing .stopping [])

theorem onPluginReadyLost_ring :
    "lost" ∈ ring.keys ∧ ∃ after blocked, Propagated (fun _ => 0) ring "lost" after ∧
      ∀ fuel, ring.keys.length ≤ fuel →
        onPluginReadyLost (fun _ => 0) false fuel ring "lost" = some (after, blocked) :=
  ⟨by decide, onPluginReadyLost_spec (fun _ => 0) ring "lost" (by decide)⟩

/-! ## Through plugins that are not ready -/

/-- A ready plugin that hard-depends on the provider, directly or through any other plugins. -/
def Dependent (plugins : Dict String Registered) (provider name : String) : Prop :=
  ∃ plugin, plugins.get? name = some plugin ∧ plugin.base.pluginState = .ready ∧
    Relation.TransGen (fun n d => ∃ p, plugins.get? n = some p ∧ p.HardDependsOn d) name provider

/-- A provider, a plugin that was blocked before, and a ready one that depends on the latter. -/
def chain : Dict String Registered :=
  ((Dict.empty.set "lost" (standing .stopping [])).set "between" (standing .blocked ["lost"])).set
    "last" (standing .ready ["between"])

/-- What depends on the provider only through a plugin that is not ready stays ready. -/
theorem chain_not_blocked :
    Dependent chain "lost" "last" ∧
      ∃ after, onPluginReadyLost (fun _ => 0) false 3 chain "lost" = some after ∧
        (after.1.get? "last").map (·.base.pluginState) = some .ready := by
  refine ⟨⟨standing .ready ["between"], rfl, rfl, ?_⟩, ?_⟩
  · refine .tail (b := "between") (.single ⟨standing .ready ["between"], rfl, ["between"], ?_, ?_⟩)
      ⟨standing .blocked ["lost"], rfl, ["lost"], ?_, ?_⟩
    all_goals decide
  · exact ⟨_, rfl, by decide⟩

end ReticulumPi.Plugin
