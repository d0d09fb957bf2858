import Mathlib.Data.Rat.Defs

/-!
# Values as Python's `json` and most SDKs hand them out

The plain data that a program receives without knowing its shape: `None`,
Booleans, numbers, strings, lists, and dictionaries with string keys. Of
several entries with one key the first counts, so that a dictionary is meant to
list each key once.
-/

/-- A plain Python value; a float is taken for the rational number it stands for. -/
inductive PyValue where
  | none
  | bool (b : Bool)
  | int (n : ℤ)
  | float (q : ℚ)
  | str (s : String)
  | list (l : List PyValue)
  | dict (d : List (String × PyValue))

namespace PyValue

/-- `bool(v)` -/
def truthy : PyValue → Bool
  | none => false
  | bool b => b
  | int n => n ≠ 0
  | float q => q ≠ 0
  | str s => s ≠ ""
  | list l => !l.isEmpty
  | dict d => !d.isEmpty

/-- `v == 0`; `False` equals `0`. -/
def isZero : PyValue → Bool
  | bool b => !b
  | int n => n = 0
  | float q => q = 0
  | _ => false

/-- `v.get(key)` on a dictionary; another value has no entries. -/
def get? : PyValue → String → Option PyValue
  | dict d, key => d.lookup key
  | _, _ => Option.none

end PyValue
