import ReticulumPi.Lib.Dict
import ReticulumPi.Rns.Syntax

/-!
# The editor of the Reticulum config file

`parse_rns_config` lists the interfaces of the file, each with the numbers of its
lines; `set_interface_enabled` sets the flag of one in the lines, replacing the
value wherever it is set, or inserting a line under the head of the interface
where it is not. The entries are not read again between two edits
(`transport_monitor.py`).
-/

namespace ReticulumPi.Rns

/-- An entry of the list of interfaces. -/
structure InterfaceEntry where
  name : List Char
  ifaceType : List Char := []
  enabled : Bool := false
  startLine : ℕ
  enabledLine : ℤ := -1
  properties : Dict (List Char) (List Char) := ∅
  enabledLines : List ℕ := []

/-- The keys of a flag. -/
def flagKeys : List (List Char) := ["enabled".toList, "interface_enabled".toList]

/-- `_ENABLED_TRUE`. -/
def enabledTrue : List (List Char) :=
  ["yes".toList, "true".toList, "1".toList, "on".toList]

/-! ## Parsing -/

attribute [local instance] lawfulBEq_key

variable (text : Text)

/-- A property is added to the entry that is being read. -/
def InterfaceEntry.addProperty (e : InterfaceEntry) (idx : ℕ) (key val : List Char) :
    InterfaceEntry :=
  let e := { e with properties := e.properties.set key val }
  if key = "type".toList then { e with ifaceType := val }
  else if key ∈ flagKeys then
    { e with
      enabled := e.enabled || decide (text.lower val ∈ enabledTrue)
      enabledLines := e.enabledLines ++ [idx]
      enabledLine := if e.enabledLine < 0 ∨ key = "enabled".toList then idx else e.enabledLine }
  else e

/-- What the parser knows after some of the lines. -/
structure Scan where
  interfaces : List InterfaceEntry := []
  inInterfaces : Bool := false
  inNested : Bool := false
  current : Option InterfaceEntry := none

/-- `_finish`. -/
def Scan.finish (s : Scan) : List InterfaceEntry := s.interfaces ++ s.current.toList

/-- The parser goes over a line. -/
def Scan.step (s : Scan) (idx : ℕ) (raw : List Char) : Scan :=
  match text.kindOf raw with
  | .sectionHead name =>
    { interfaces := s.finish
      inInterfaces := text.casefold (text.scalar name) = "interfaces".toList }
  | kind =>
    if ! s.inInterfaces then s
    else match kind with
      | .subsectionHead name =>
        { s with
          interfaces := s.finish
          current := some { name := text.scalar name, startLine := idx }
          inNested := false }
      | .nestedHead => { s with inNested := true }
      | .property key value =>
        if s.inNested then s
        else { s with
          current := s.current.map fun e =>
            e.addProperty text idx (text.lower (PyStr.strip key)) (text.scalar value) }
      | _ => s

/-- The lines from a number on. -/
def Scan.run (s : Scan) (idx : ℕ) : List (List Char) → Scan
  | [] => s
  | raw :: lines => (s.step text idx raw).run (idx + 1) lines

variable (lines : List (List Char))

/-- `parse_rns_config_from_lines`. -/
def parseRnsConfig : List InterfaceEntry :=
  (({} : Scan).run text 0 lines).finish

/-! ## Editing -/

/-- `_interface_end_line`: a line that ends an interface. -/
def endsInterface (line : List Char) : Bool :=
  (bracketed 2 line).isSome || (bracketed 1 line).isSome

/-- `_detect_indent`: the white space before the first of the properties on the
    next four lines. -/
def Text.detectIndent (afterLine : ℕ) : List Char :=
  let near := ((lines.drop (afterLine + 1)).takeWhile fun line => ! endsInterface line).take 4
  match (near.takeWhile fun line => ! isNested line).find? fun line =>
      (text.keyValue line).isSome with
  | some line => line.takeWhile PyStr.isSpace
  | none => "    ".toList

/-- The line that is inserted. -/
def flagLine (indent : List Char) (enabled : Bool) : List Char :=
  indent ++ ("enabled = ".toList ++ (flagValue enabled ++ ['\n']))

/-- `set_interface_enabled`. -/
def setInterfaceEnabled (entry : InterfaceEntry) (enabled : Bool) :
    List (List Char) :=
  let enabledLines := entry.enabledLines.reverse.dedup.reverse
  let enabledLines :=
    if enabledLines = [] ∧ 0 ≤ entry.enabledLine then [entry.enabledLine.toNat] else enabledLines
  if enabledLines ≠ [] then
    enabledLines.foldl (fun lines lineNumber =>
      lines.modify lineNumber fun line => replacePropertyValue line (flagValue enabled)) lines
  else
    lines.insertIdx (entry.startLine + 1)
      (flagLine (text.detectIndent lines entry.startLine) enabled)

/-- A list of choices: the place of an entry in the list of interfaces, and the flag
    it is to have. -/
abbrev Choices := List (ℕ × Bool)

variable (entries : List InterfaceEntry) (choices : Choices)

/-- The entries that are chosen are set, one after the other, as they were parsed. -/
def setAll :
    List (List Char) :=
  choices.foldl (fun lines choice =>
    match entries[choice.1]? with
    | some entry => setInterfaceEnabled text lines entry choice.2
    | none => lines) lines

/-! ## What is to be kept -/

/-- The flag that an interface is to have, if it is chosen. -/
def Choices.desired (k : ℕ) : Option Bool := choices.lookup k

/-- The properties other than the flag. -/
def InterfaceEntry.others (e : InterfaceEntry) : Dict (List Char) (List Char) :=
  e.properties.select fun key _ => key ∉ flagKeys

/-- The entry of an interface after the edits: all that it was, but for the flag if
    it is chosen. -/
structure InterfaceEntry.Kept (desired : Option Bool) (e e' : InterfaceEntry) : Prop where
  name : e'.name = e.name
  ifaceType : e'.ifaceType = e.ifaceType
  others : e'.others = e.others
  unchosen : desired = none → e'.properties = e.properties ∧ e'.enabled = e.enabled
  chosen : ∀ enabled, desired = some enabled → e'.enabled = enabled

/-- The numbers of the lines that set a flag of a chosen interface. -/
def chosenLines : List ℕ :=
  entries.zipIdx.flatMap fun e => if (choices.desired e.2).isSome then e.1.enabledLines else []

/-- The other lines. -/
def otherLines :
    List (List Char) :=
  (lines.zipIdx.filter fun line => line.2 ∉ chosenLines entries choices).map Prod.fst

/-- After the edits, the file lists the same interfaces, the chosen ones with their
    flags, and no other line has changed. -/
structure Toggles (file : List Char) (choices : Choices) (file' : List Char) : Prop where
  length : (parseRnsConfig text (Lines.split file')).length =
    (parseRnsConfig text (Lines.split file)).length
  kept : ∀ (k : ℕ) (e e' : InterfaceEntry),
    (parseRnsConfig text (Lines.split file))[k]? = some e →
      (parseRnsConfig text (Lines.split file'))[k]? = some e' → e.Kept (choices.desired k) e'
  others : otherLines (Lines.split file') (parseRnsConfig text (Lines.split file')) choices =
    otherLines (Lines.split file) (parseRnsConfig text (Lines.split file)) choices

/-- The file that is written. -/
def toggled (file : List Char) (choices : Choices) : List Char :=
  (setAll text (Lines.split file) (parseRnsConfig text (Lines.split file)) choices).flatten

end ReticulumPi.Rns
