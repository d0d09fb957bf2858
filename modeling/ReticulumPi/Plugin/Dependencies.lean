import ReticulumPi.Lib.Dict
import ReticulumPi.Plugin.Lifecycle

/-!
# What plugins depend on

The plugins of the application by their names, each with the hard dependencies
that it declares. The application reads them with `dependencyNames`, which
refuses names that are none.
-/

namespace ReticulumPi.Plugin

/-- `[A-Za-z0-9]` -/
def isNameStart (c : Char) : Bool := c.isAlphanum

/-- `[A-Za-z0-9_.-]` -/
def isNameChar (c : Char) : Bool := c.isAlphanum || c = '_' || c = '.' || c = '-'

/-- `re.fullmatch(r"[A-Za-z0-9][A-Za-z0-9_.-]{0,127}", name)` -/
def isPluginName (name : String) : Bool :=
  match name.toList with
  | [] => false
  | c :: cs => isNameStart c && cs.length ≤ 127 && cs.all isNameChar

/-- A plugin of the application. Its `plugin_dependencies` are `none` where they are neither a
    tuple nor a list, or hold something other than strings. -/
structure Registered where
  base : PluginBase
  pluginDependencies : Option (List String) := some []

/-- The names without those that came before. -/
def withoutRepetition (raw : List String) : List String :=
  raw.foldl (fun names dependency => if dependency ∈ names then names else names ++ [dependency]) []

/-- `_dependency_names` of the hard dependencies, which may raise. -/
def Registered.dependencyNames (plugin : Registered) : Option (List String) :=
  plugin.pluginDependencies.bind fun raw =>
    if raw.all isPluginName then some (withoutRepetition raw) else none

/-- The plugin declares the hard dependency. -/
def Registered.HardDependsOn (plugin : Registered) (dependency : String) : Prop :=
  ∃ names, plugin.dependencyNames = some names ∧ dependency ∈ names

end ReticulumPi.Plugin
