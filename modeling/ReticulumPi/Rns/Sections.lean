import ReticulumPi.Rns.Kinds

/-!
# Adding an interface

`add_interface_section` writes a section for a new interface at the end of the section of
the interfaces. Where this ends is found by `_find_interfaces_end`, that compares the name
of a section as it stands, without its quotes; where there is none, it is the end of the
file. The name, the type and the properties are written as they are.

The file is read again as Python reads it, with each kind of newline.
-/

namespace ReticulumPi.Rns

/-- The properties that are given: a key and a value each. -/
abbrev Properties := List (List Char × List Char)

attribute [local instance] lawfulBEq_key

/-- `open(path, "r")` and `readlines`. -/
def readLines (file : List Char) : List (List Char) := Lines.split (Lines.universal false file)

variable (text : Text)

/-- `parse_rns_config`. -/
def parseFile (file : List Char) : List InterfaceEntry := parseRnsConfig text (readLines file)

/-- The name of a section is `interfaces`, as `_find_interfaces_end` sees it. -/
def Text.namesInterfaces (name : List Char) : Bool :=
  text.lower (PyStr.strip name) = "interfaces".toList

/-- The loop of `_find_interfaces_end` over the lines from `idx` on. -/
def Text.endFrom (idx : ℕ) (inInterfaces : Bool) (lastContent : ℕ) : List (List Char) → ℕ
  | [] => lastContent
  | raw :: lines =>
    match bracketed 1 (rstripNewline raw) with
    | some name =>
      if inInterfaces then idx
      else if text.namesInterfaces name then endFrom (idx + 1) true (idx + 1) lines
      else endFrom (idx + 1) false lastContent lines
    | none =>
      if inInterfaces ∧ PyStr.strip (rstripNewline raw) ≠ [] then
        endFrom (idx + 1) true (idx + 1) lines
      else endFrom (idx + 1) inInterfaces lastContent lines

variable (lines : List (List Char))

/-- `_find_interfaces_end`. -/
def Text.findInterfacesEnd : ℕ :=
  text.endFrom 0 false lines.length lines

/-- The properties that are written, besides the type and the flag. -/
def Text.kept (properties : Properties) : Properties :=
  properties.filter fun p => text.lower p.1 ∉ ["type".toList, "enabled".toList]

/-- The head of an interface. -/
def headLine (name : List Char) : List Char :=
  "[[".toList ++ (name ++ "]]\n".toList)

/-- A line that sets a property. -/
def propertyLine (indent key value : List Char) : List Char :=
  indent ++ (key ++ (" = ".toList ++ (value ++ ['\n'])))

variable (name ifaceType : List Char)

/-- `block`, after its first line, that is empty. -/
def Text.block (properties : Properties) : List (List Char) :=
  headLine name :: propertyLine "  ".toList "type".toList ifaceType ::
    propertyLine "  ".toList "enabled".toList "yes".toList ::
      (text.kept properties).map fun p => propertyLine "  ".toList p.1 p.2

/-- `add_interface_section`. -/
def addInterfaceSection (properties : Properties) : List (List Char) :=
  let idx := text.findInterfacesEnd lines
  lines.take idx ++ (['\n'] :: text.block name ifaceType properties) ++ lines.drop idx

/-- The file that is written. -/
def added (file name ifaceType : List Char) (properties : Properties) : List Char :=
  (addInterfaceSection text (readLines file) name ifaceType properties).flatten

/-- The text is on one line. -/
def OnLine (t : List Char) : Prop := '\n' ∉ t ∧ '\r' ∉ t
deriving Decidable

/-- What is known of Python's strings and of `ConfigObj`: the scalar on a line has no
    newline, `lower` neither makes nor loses a newline or a bracket, and `interfaces`, that is
    in lower case, is a scalar, in capitals and with white space around it too. -/
structure Text.Reads : Prop where
  scalar_onLine : ∀ value, OnLine value → OnLine (text.scalar value)
  mem_lower : ∀ c ∈ ['\n', '\r', '['], ∀ t, c ∈ text.lower t ↔ c ∈ t
  lower_interfaces : text.lower "interfaces".toList = "interfaces".toList
  interfaces : ∀ name, OnLine name → text.namesInterfaces name = true →
    text.isInterfaces name = true

/-! ## What is to be read -/

/-- An entry is the one that is asked for. -/
structure InterfaceEntry.IsNew (e : InterfaceEntry) (name ifaceType : List Char)
    (properties : Properties) : Prop where
  hasName : e.name = name
  hasType : e.ifaceType = ifaceType
  enabled : e.enabled = true
  typeKey : e.properties.get? "type".toList = some ifaceType
  enabledKey : e.properties.get? "enabled".toList = some "yes".toList
  given : ∀ p ∈ text.kept properties, e.properties.get? (text.lower p.1) = some p.2
  keys : ∀ key ∈ e.properties.keys, key = "type".toList ∨ key = "enabled".toList ∨
    ∃ p ∈ text.kept properties, key = text.lower p.1

/-- The file lists the interfaces that the other does, in their order, and one more, that is
    the one asked for. -/
def Adds (file name ifaceType : List Char) (properties : Properties) (file' : List Char) : Prop :=
  ∃ before new after, parseFile text file' = before ++ new :: after ∧
    List.Forall₂ InterfaceEntry.Same (parseFile text file) (before ++ after) ∧
      new.IsNew text name ifaceType properties

/-- The names of the sections of the file. -/
def sections : List (List Char) :=
  lines.filterMap fun raw => bracketed 1 (rstripNewline raw)

/-- A section is named `interfaces` as it stands, or the last one is for the parser. -/
def Text.HasPlace : Prop :=
  (∃ name ∈ sections lines, text.namesInterfaces name = true) ∨
    ∃ name ∈ (sections lines).getLast?, text.isInterfaces name = true

/-- The section that is written, alone in the section of the interfaces, is read as what is
    asked for. -/
def ReadsBack (properties : Properties) : Prop :=
  ∃ e, parseFile text ("[interfaces]\n".toList ++
    (text.block name ifaceType properties).flatten) = [e] ∧
      e.IsNew text name ifaceType properties

end ReticulumPi.Rns
