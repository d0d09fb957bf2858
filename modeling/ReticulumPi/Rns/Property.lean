import ReticulumPi.Rns.Sections

/-!
# Editing a property

`set_interface_property` replaces the value in the first of the lines of an interface that
sets the key, or inserts a line after the last of those that set anything;
`remove_interface_property` deletes the first line that sets the key. Both look for the lines
from the head of the interface on, as it was parsed.
-/

namespace ReticulumPi.Rns

variable (text : Text) (lines : List (List Char))

/-- `_direct_property_lines`, with the lines between those that set a property: what follows
    the head, up to the next interface or section or a nested one. -/
def directLines (startLine : ℕ) : List (List Char) :=
  ((lines.drop (startLine + 1)).takeWhile fun line => ! endsInterface line).takeWhile
    fun line => ! isNested line

/-- A line sets a property. -/
def Text.setsAny (line : List Char) : Bool := (text.keyValue line).isSome

/-- It sets the property of a key. -/
def Text.setsKey (key line : List Char) : Bool :=
  match text.keyValue line with
  | some (k, _) => text.lower (PyStr.strip k) = text.lower key
  | none => false

/-- How many of the lines come before one that is inserted. -/
def Text.insertAt (direct : List (List Char)) : ℕ :=
  (direct.rdropWhile fun line => ! text.setsAny line).length

variable (entry : InterfaceEntry)

/-- `set_interface_property`. -/
def setInterfaceProperty (key value : List Char) : List (List Char) :=
  let direct := directLines lines entry.startLine
  match direct.findIdx? (text.setsKey key) with
  | some i => lines.modify (entry.startLine + 1 + i) fun line => replacePropertyValue line value
  | none => lines.insertIdx (entry.startLine + 1 + text.insertAt direct)
      (propertyLine (text.detectIndent lines entry.startLine) key value)

/-- `remove_interface_property`. -/
def removeInterfaceProperty (key : List Char) : List (List Char) :=
  match (directLines lines entry.startLine).findIdx? (text.setsKey key) with
  | some i => lines.eraseIdx (entry.startLine + 1 + i)
  | none => lines

/-! ## What is to be read -/

/-- The two files have the same interfaces, but for the properties of the one at `k`. -/
structure ChangesOnly (k : ℕ) (file file' : List Char)
    (changed : Dict (List Char) (List Char) → Dict (List Char) (List Char) → Prop) : Prop where
  length : (parseFile text file').length = (parseFile text file).length
  others : ∀ (j : ℕ) (e e' : InterfaceEntry), j ≠ k → (parseFile text file)[j]? = some e →
    (parseFile text file')[j]? = some e' → e.Same e'
  edited : ∀ e e' : InterfaceEntry, (parseFile text file)[k]? = some e →
    (parseFile text file')[k]? = some e' → e'.name = e.name ∧ changed e.properties e'.properties

/-- The key has the value, or none, and the others have theirs. -/
def IsSet (key : List Char) (value : Option (List Char))
    (d d' : Dict (List Char) (List Char)) : Prop :=
  d'.get? (text.lower key) = value ∧ ∀ q, q ≠ text.lower key → d'.get? q = d.get? q

/-- The file that is written. -/
def withProperty (file : List Char) (entry : InterfaceEntry) (key value : List Char) :
    List Char :=
  (setInterfaceProperty text (readLines file) entry key value).flatten

def withoutProperty (file : List Char) (entry : InterfaceEntry) (key : List Char) : List Char :=
  (removeInterfaceProperty text (readLines file) entry key).flatten

/-- A line that is inserted comes after a newline, and is read as what is to be set. The
    value of the only line that sets the key is read as it is to be, after it is replaced.
    Where several lines set it, the last has the value already. -/
def CanSet (key value : List Char) : Prop :=
  let direct := directLines lines entry.startLine
  match direct.filter (text.setsKey key) with
  | [] =>
    (∃ line ∈ lines[entry.startLine + text.insertAt direct]?, '\n' ∈ line) ∧
      ∃ k v, text.kinds (readLines (propertyLine (text.detectIndent lines entry.startLine)
        key value)) = [.property k v] ∧ text.lower (PyStr.strip k) = text.lower key ∧
          text.scalar v = value
  | [line] => OnLine value ∧
      ∃ k v, text.kindOf (replacePropertyValue line value) = .property k v ∧ text.scalar v = value
  | _ => entry.properties.get? (text.lower key) = some value

/-- One line at most sets the key. -/
def CanRemove (key : List Char) : Prop :=
  ((directLines lines entry.startLine).filter (text.setsKey key)).length ≤ 1

end ReticulumPi.Rns
