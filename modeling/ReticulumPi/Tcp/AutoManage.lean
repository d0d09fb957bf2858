import ReticulumPi.Lib.Transition
import Mathlib.Data.List.Nodup

/-!
# TCP auto-management

`transport_monitor.py` turns the TCP client interfaces of the Reticulum config
file off when the internet is lost, and on again when it is back. What it has
turned off is in a state file, which is written once the daemon has been
restarted, and in memory. An operation goes in steps: it reads a file, writes
one, has the daemon restarted; any of them can fail, the process can crash
between two of them, and the user edits the config file meanwhile. Operations
have a lock among themselves, and edits by the user do not take it.

When the internet goes and comes back is left to the runs.
-/

namespace ReticulumPi.Tcp

/-! ## The config file -/

/-- An `InterfaceEntry`, with its `enabled` line. -/
structure InterfaceEntry where
  name : String
  ifaceType : String
  enabled : Bool
  deriving DecidableEq

/-- The interfaces of the config file: `ConfigObj` accepts no two sections of one
    name. -/
structure RnsConfig where
  entries : List InterfaceEntry
  nodup : (entries.map InterfaceEntry.name).Nodup
  deriving DecidableEq

namespace RnsConfig

variable (config : RnsConfig)

/-- The flag of an interface, `by_name.get(name).enabled`. -/
def flag (name : String) : Option Bool :=
  (config.entries.find? fun e => e.name = name).map (·.enabled)

/-- `set_interface_enabled` of an entry. -/
def setInterfaceEnabled (name : String) (enabled : Bool) : RnsConfig where
  entries := config.entries.map fun e =>
    if e.name = name then { e with enabled := enabled } else e
  nodup := by
    have hname : InterfaceEntry.name ∘ (fun e : InterfaceEntry =>
        if e.name = name then { e with enabled := enabled } else e) = InterfaceEntry.name := by
      funext e
      rw [Function.comp_apply]
      split_ifs <;> rfl
    rw [List.map_map, hname]
    exact config.nodup

/-- The entries of the names, one after the other. -/
def setAll (names : List String) (enabled : Bool) : RnsConfig :=
  names.foldl (fun config name => config.setInterfaceEnabled name enabled) config

/-- The names of the entries to disable. -/
def toDisable : List String :=
  (config.entries.filter fun e => e.ifaceType = "TCPClientInterface" && e.enabled).map (·.name)

/-- The names of those that are to be enabled: the ones that are not. -/
def toEnable (names : List String) : List String :=
  names.filter fun name => config.flag name = some false

/-- The interfaces whose flag is `before` in the one file and `after` in the other. -/
def changed (config config' : RnsConfig) (before after : Bool) : List String :=
  (config.entries.map (·.name)).filter fun name =>
    config.flag name = some before && config'.flag name = some after

theorem flag_setInterfaceEnabled (name : String) (enabled : Bool)
    (n : String) : (config.setInterfaceEnabled name enabled).flag n =
      if n = name then (config.flag n).map fun _ => enabled else config.flag n := by
  rw [flag, flag, setInterfaceEnabled]
  dsimp only
  induction config.entries with
  | nil => split_ifs <;> rfl
  | cons e entries ih =>
    have hname : (if e.name = name then { e with enabled := enabled } else e).name = e.name := by
      split_ifs <;> rfl
    rw [List.map_cons, List.find?_cons, List.find?_cons, hname]
    by_cases he : e.name = n
    · rw [decide_eq_true he]
      by_cases hn : n = name
      · rw [if_pos hn, if_pos (he.trans hn)]
        rfl
      · rw [if_neg hn, if_neg (he ▸ hn)]
    · rw [decide_eq_false he]
      exact ih

theorem flag_setAll (names : List String) (enabled : Bool) (n : String) :
    (config.setAll names enabled).flag n =
      if n ∈ names then (config.flag n).map fun _ => enabled else config.flag n := by
  rw [setAll]
  induction names generalizing config with
  | nil => rw [if_neg List.not_mem_nil]; rfl
  | cons name names ih =>
    rw [List.foldl_cons, ih, flag_setInterfaceEnabled]
    by_cases hn : n = name
    · rw [if_pos hn, if_pos (List.mem_cons.2 (.inl hn)), Option.map_map]
      split_ifs <;> rfl
    · rw [if_neg hn]
      exact if_congr (by rw [List.mem_cons, or_iff_right hn]) rfl rfl

theorem flag_eq_of_mem {config : RnsConfig} {e : InterfaceEntry} (h : e ∈ config.entries) :
    config.flag e.name = some e.enabled := by
  have hfind : config.entries.find? (fun e' => e'.name = e.name) = some e := by
    have hsome : (config.entries.find? fun e' => e'.name = e.name).isSome = true :=
      List.find?_isSome.2 ⟨e, h, decide_eq_true rfl⟩
    obtain ⟨e', he'⟩ := Option.isSome_iff_exists.1 hsome
    have hname : e'.name = e.name :=
      of_decide_eq_true
        (List.find?_some (p := fun e' : InterfaceEntry => decide (e'.name = e.name)) he')
    rw [he', List.inj_on_of_nodup_map config.nodup (List.mem_of_find?_eq_some he') h hname]
  rw [flag, hfind]
  rfl

theorem mem_changed {config config' : RnsConfig} {before after : Bool} {n : String} :
    n ∈ config.changed config' before after ↔
      config.flag n = some before ∧ config'.flag n = some after := by
  rw [changed, List.mem_filter, Bool.and_eq_true, decide_eq_true_eq, decide_eq_true_eq]
  refine and_iff_right_of_imp fun h => ?_
  obtain ⟨e, he, -⟩ := Option.map_eq_some_iff.1 h.1
  have hname : e.name = n :=
    of_decide_eq_true (List.find?_some (p := fun e' : InterfaceEntry => decide (e'.name = n)) he)
  exact List.mem_map.2 ⟨e, List.mem_of_find?_eq_some he, hname⟩

theorem flag_of_mem_toDisable {config : RnsConfig} {n : String} (h : n ∈ config.toDisable) :
    config.flag n = some true := by
  obtain ⟨e, he, rfl⟩ := List.mem_map.1 h
  obtain ⟨he, hon⟩ := List.mem_filter.1 he
  rw [flag_eq_of_mem he, (Bool.and_eq_true_iff.1 hon).2]

theorem mem_toEnable {config : RnsConfig} {names : List String} {n : String} :
    n ∈ config.toEnable names ↔ n ∈ names ∧ config.flag n = some false := by
  rw [toEnable, List.mem_filter, decide_eq_true_eq]

end RnsConfig

/-! ## The state -/

/-- How far the operation that holds the lock is; the files that it has read, and the
    interfaces it is about. -/
inductive Operation
  | idle
  /-- Disabling: the config file has been read, and is to be written. -/
  | disabling (read : RnsConfig) (names : List String)
  /-- It has been written, and the daemon is to be restarted. -/
  | disabled (names : List String)
  /-- The daemon has been restarted, and the state is to be saved. -/
  | saving (names : List String)
  /-- The restart has been blocked, and the config file is to be read again. -/
  | reverting (names : List String)
  /-- It has been read, and is to be written. -/
  | restoring (read : RnsConfig) (names : List String)
  /-- Enabling: the state has been loaded, and the config file is to be read. -/
  | loaded (names : List String)
  /-- It has been read, and is to be written. -/
  | enabling (read : RnsConfig) (names : List String)
  /-- It has been written, and the daemon is to be restarted. -/
  | enabled
  /-- The daemon is to be restarted, at last. -/
  | deferred
  /-- The state is to be cleared. -/
  | clearing
  deriving DecidableEq

/-- The files and the process, and of the past what the user and the process have
    done. -/
structure AutoManage where
  /-- The Reticulum config file. -/
  config : RnsConfig
  /-- The state file. -/
  saved : Option (List String) := none
  /-- `_tam_disabled_names`. -/
  disabledNames : List String := []
  running : Bool := true
  operation : Operation := .idle
  /-- The timers of deferred restarts. -/
  deferred : ℕ := 0
  /-- What the user's editor has read of the config file. -/
  editor : Option RnsConfig := none
  /-- The interfaces that the process has turned off, and that nobody has turned on
      since. -/
  autoOff : List String := []
  /-- Those that the user has. -/
  userOff : List String := []
  /-- Those that the process has turned on after the user had turned them off. -/
  stolen : List String := []
  deriving DecidableEq

inductive Event
  /-- The process starts, `_startup_tcp_recovery`; what it may go on to is `enable`. -/
  | start
  | crash
  /-- The internet is lost, and the stabilization period over. -/
  | disable
  /-- The internet is back; the state file can be read, or it cannot. -/
  | enable (readable : Bool)
  /-- The timer of a deferred restart. -/
  | fire
  | parse
  | parseFails
  | write
  /-- Writing raises, after the file has been replaced or before. -/
  | writeFails (replaced : Bool)
  | restart (ok : Bool)
  | save (ok : Bool)
  | clear (ok : Bool)
  /-- The user reads the config file. -/
  | userRead
  /-- The user writes what was read with one flag set. -/
  | userWrite (name : String) (enabled : Bool)
  deriving DecidableEq

/-! ## Steps -/

namespace AutoManage

variable (s : AutoManage)

/-- The names of the state file. -/
def listed : List String := s.saved.getD []

/-- The process writes the config file. -/
def autoWrite (config : RnsConfig) : AutoManage :=
  { s with
    config := config
    autoOff := (s.autoOff ++ s.config.changed config true false).filter fun n =>
      config.flag n = some false
    userOff := s.userOff.filter fun n => config.flag n = some false
    stolen := s.stolen ++ (s.config.changed config false true).filter (· ∈ s.userOff) }

/-- The user writes the config file, to have an interface turned on or off. -/
def userWrite (config : RnsConfig) (name : String) (enabled : Bool) : AutoManage :=
  { s with
    config := config
    editor := none
    autoOff := s.autoOff.filter fun n => config.flag n = some false
    userOff := (s.userOff ++ s.config.changed config true false ++
      if enabled then [] else [name]).filter fun n => config.flag n = some false }

/-- The config file that the operation writes, and what comes next. -/
def output : Operation → Option (RnsConfig × Operation)
  | .disabling read names => some (read.setAll names false, .disabled names)
  | .restoring read names => some (read.setAll (read.toEnable names) true, .idle)
  | .enabling read names => some (read.setAll (read.toEnable names) true, .enabled)
  | _ => none

/-- `_restart_rnsd`, and what comes next. -/
def afterRestart (ok : Bool) : Option AutoManage :=
  match s.operation with
  | .disabled names =>
    some { s with operation := if ok then .saving names else .reverting names }
  | .enabled =>
    some (if ok then { s with operation := .clearing }
      else { s with operation := .idle, deferred := s.deferred + 1 })
  | .deferred => some { s with operation := if ok then .clearing else .idle }
  | _ => none

def next : Event → Option AutoManage
  | .start =>
    if s.running then none
    else some { s with running := true, disabledNames := s.listed }
  | .crash =>
    some { s with running := false, operation := .idle, deferred := 0, disabledNames := [] }
  | .disable =>
    if s.running = false ∨ s.operation ≠ .idle ∨ s.config.toDisable = [] then none
    else some { s with operation := .disabling s.config s.config.toDisable }
  | .enable readable =>
    if s.running = false ∨ s.operation ≠ .idle ∨ readable = false ∨ s.listed = [] then none
    else some { s with operation := .loaded s.listed }
  | .fire =>
    if s.running = false ∨ s.operation ≠ .idle ∨ s.deferred = 0 then none
    else some { s with operation := .deferred, deferred := s.deferred - 1 }
  | .parse => match s.operation with
    | .loaded names =>
      some { s with
        operation := if s.config.toEnable names = [] then .clearing
          else .enabling s.config names }
    | .reverting names => some { s with operation := .restoring s.config names }
    | _ => none
  | .parseFails => match s.operation with
    | .loaded _ | .reverting _ => some { s with operation := .idle }
    | _ => none
  | .write => (output s.operation).map fun out =>
    { s.autoWrite out.1 with operation := out.2 }
  | .writeFails replaced => (output s.operation).map fun out =>
    { (if replaced then s.autoWrite out.1 else s) with operation := .idle }
  | .restart ok => s.afterRestart ok
  | .save ok => match s.operation with
    | .saving names =>
      some (if ok then { s with operation := .idle, saved := some names, disabledNames := names }
        else { s with operation := .idle })
    | _ => none
  | .clear ok =>
    if s.operation = .clearing then
      some { s with
        operation := .idle, disabledNames := [], saved := if ok then none else s.saved }
    else none
  | .userRead => some { s with editor := s.config }
  | .userWrite name enabled => s.editor.map fun read =>
    s.userWrite (read.setInterfaceEnabled name enabled) name enabled

end AutoManage

/-- The runs begin with any config file, and nothing turned off by anyone. -/
def autoManage : Transition AutoManage Event :=
  .ofNext (fun s => ∃ config, s = { config := config }) AutoManage.next

end ReticulumPi.Tcp
