import Mathlib.Data.List.Induction
import ReticulumPi.Lib.Dict

/-!
# Absolute paths and the file system they name

An absolute path is the list of its parts, `..` among them, as Python's
`pathlib` keeps them; empty parts and `.` are dropped when a text is read. A file
system is a tree of nodes at *locations*, which are paths without `..`; a
symbolic link has a target, and `resolve` follows the links and takes `..` off,
as `os.path.realpath` does, whether or not there is anything at the end.

* `ofText_text`: a path is read back from its text;
* `up_not_mem_resolve`: what is resolved has no `..`;
* `resolve_eq_self`: a path without `..` on which there is no link is resolved.
-/

namespace PosixPath

open List

/-- A part of a path: a name, or `..`. -/
abbrev Part := {s : String // s ≠ "" ∧ s ≠ "." ∧ '/' ∉ s.toList}

abbrev Part.of (s : String) (h : s ≠ "" ∧ s ≠ "." ∧ '/' ∉ s.toList := by decide) : Part := ⟨s, h⟩

/-- The part `..`. -/
def up : Part := .of ".."

/-- An absolute path, or one relative to another. -/
abbrev Path := List Part

variable {p q path rest : Path} {part : Part}

/-- The path lies at or below `parent`. -/
def IsWithin (p parent : Path) : Prop := parent <+: p
deriving Decidable

/-- One of the paths contains the other. -/
def Nested (p q : Path) : Prop := IsWithin p q ∨ IsWithin q p
deriving Decidable

theorem Nested.symm (h : Nested p q) : Nested q p := Or.symm h

/-! ## Texts -/

/-- The text of an absolute path. -/
def text (p : Path) : String :=
  String.ofList ('/' :: ['/'].intercalate (p.map fun part => part.1.toList))

/-- The part with the given text; an empty one and `.` are none. -/
def part? (s : List Char) : Option Part :=
  if h : String.ofList s ≠ "" ∧ String.ofList s ≠ "." ∧ '/' ∉ s then
    some ⟨String.ofList s, h.1, h.2.1, by rw [String.toList_ofList]; exact h.2.2⟩
  else none

/-- The absolute path with the given text. -/
def ofText (s : String) : Option Path :=
  match s.toList with
  | '/' :: rest => some ((rest.splitOn '/').filterMap part?)
  | _ => none

theorem part?_toList (part : Part) : part? part.1.toList = some part := by
  obtain ⟨s, hne, hdot, hslash⟩ := part
  rw [part?, dif_pos ⟨by rwa [String.ofList_toList], by rwa [String.ofList_toList], hslash⟩]
  simp only [String.ofList_toList]

theorem ofText_text (p : Path) : ofText (text p) = some p := by
  rw [ofText, text, String.toList_ofList]
  rcases p with _ | ⟨part, p⟩
  · simp [part?]
  · have hslash : ∀ l ∈ ((part :: p).map fun part => part.1.toList), '/' ∉ l := by
      intro l hl
      obtain ⟨x, -, rfl⟩ := List.mem_map.1 hl
      exact x.2.2.2
    change some ((List.splitOn '/' _).filterMap part?) = _
    have hread : (part? ∘ fun part : Part => part.1.toList) = some := funext part?_toList
    rw [splitOn_intercalate '/' hslash (by simp), filterMap_map, hread,
      filterMap_some]

/-! ## File systems -/

/-- What is at a location. -/
inductive Node where
  | directory
  | file
  | link (absolute : Bool) (target : Path)

/-- A file system: everything but the root lies in a directory. -/
structure FileSystem where
  nodes : Dict Path Node
  tree : ∀ dir part node, nodes.get? (dir ++ [part]) = some node →
    dir = [] ∨ nodes.get? dir = some .directory

namespace FileSystem

/-- The file system with nothing in it. -/
def empty : FileSystem := ⟨∅, nofun⟩

variable (fs : FileSystem)

/-- One part on from the location `path`, with `follow` for the links. -/
def enter (follow : Path → Path → Option Path) (path : Path) (part : Part) : Option Path :=
  if part = up then some path.dropLast
  else match fs.nodes.get? (path ++ [part]) with
    | some (.link absolute target) => follow (if absolute then [] else path) target
    | _ => some (path ++ [part])

/-- The location of `rest`, seen from the location `path`, when no more than
    `depth` links are followed inside one another. -/
def follow : ℕ → Path → Path → Option Path
  | 0, path, rest => rest.foldlM (fs.enter fun _ _ => none) path
  | depth + 1, path, rest => rest.foldlM (fs.enter (follow depth)) path

/-- `Path.resolve`; there is none when the links go round in a circle. -/
def resolve (p : Path) : Option Path := fs.follow fs.nodes.entries.length [] p

/-- There is a symbolic link at the location. -/
def IsLink (p : Path) : Prop := ∃ absolute target, fs.nodes.get? p = some (.link absolute target)

/-- There is no link on the way to the location, nor at its end. -/
def Plain (p : Path) : Prop :=
  ∀ dir part rest, p = dir ++ part :: rest → ¬ fs.IsLink (dir ++ [part])

variable {fs} {f : Path → Path → Option Path}

theorem up_not_mem_foldlM_enter (hf : ∀ path target q, up ∉ path → f path target = some q → up ∉ q) :
    ∀ {rest path q : Path}, up ∉ path → rest.foldlM (fs.enter f) path = some q → up ∉ q
  | [], path, q, hpath, h => by
    cases h
    exact hpath
  | part :: rest, path, q, hpath, h => by
    rw [foldlM_cons] at h
    obtain ⟨path', hpath', h⟩ := Option.bind_eq_some_iff.1 h
    refine up_not_mem_foldlM_enter hf ?_ h
    rw [enter] at hpath'
    split_ifs at hpath' with hup
    · cases hpath'
      exact fun hmem => hpath (dropLast_subset _ hmem)
    · have hstep : up ∉ path ++ [part] := by simp [hpath, Ne.symm hup]
      split at hpath'
      next absolute target _ =>
        refine hf _ _ _ ?_ hpath'
        split_ifs
        · exact not_mem_nil
        · exact hpath
      next =>
        cases hpath'
        exact hstep

theorem up_not_mem_follow : ∀ {depth : ℕ} {path rest q : Path}, up ∉ path →
    fs.follow depth path rest = some q → up ∉ q
  | 0, _, _, _, hpath, h => up_not_mem_foldlM_enter (fun _ _ _ _ hf => by cases hf) hpath h
  | _ + 1, _, _, _, hpath, h =>
    up_not_mem_foldlM_enter (fun _ _ _ hp hf => up_not_mem_follow hp hf) hpath h

theorem up_not_mem_resolve (h : fs.resolve p = some q) : up ∉ q :=
  up_not_mem_follow not_mem_nil h

/-- Without links and `..`, a path is walked down part by part. -/
theorem foldlM_enter_eq : ∀ {rest path : Path}, up ∉ rest → fs.Plain (path ++ rest) →
    rest.foldlM (fs.enter f) path = some (path ++ rest)
  | [], path, _, _ => by rw [append_nil]; rfl
  | part :: rest, path, hup, hplain => by
    rw [mem_cons, not_or] at hup
    have henter : fs.enter f path part = some (path ++ [part]) := by
      rw [enter, if_neg (Ne.symm hup.1)]
      split
      next absolute target h => exact absurd ⟨absolute, target, h⟩ (hplain path part rest rfl)
      next => rfl
    rw [append_cons] at hplain ⊢
    rw [foldlM_cons, henter]
    exact foldlM_enter_eq hup.2 hplain

theorem resolve_eq_self (hup : up ∉ p) (hplain : fs.Plain p) : fs.resolve p = some p := by
  rw [resolve]
  rcases fs.nodes.entries.length with _ | depth
  all_goals exact foldlM_enter_eq hup hplain

/-! ## Looking for links -/

/-- What is found on the way along a path. -/
inductive Finding where
  | none
  | link (p : Path)
  /-- What is beyond a file cannot be looked at. -/
  | notADirectory

/-- The first link on the way along `rest` from the location `path`. Beyond a
    location where there is nothing, there is nothing. -/
def findLink (fs : FileSystem) (path : Path) : Path → Finding
  | [] => .none
  | part :: rest =>
    if part = up then fs.findLink path.dropLast rest
    else match fs.nodes.get? (path ++ [part]) with
      | some (.link _ _) => .link (path ++ [part])
      | some .file => if rest = [] then .none else .notADirectory
      | some .directory => fs.findLink (path ++ [part]) rest
      | none => .none

theorem get?_append_of_none (h : fs.nodes.get? path = none) (hne : path ≠ []) :
    fs.nodes.get? (path ++ rest) = none := by
  induction rest using List.reverseRecOn with
  | nil => rwa [append_nil]
  | append_singleton rest part ih =>
    rw [← append_assoc]
    refine Option.eq_none_iff_forall_ne_some.2 fun node hnode => ?_
    rcases fs.tree _ _ _ hnode with hnil | hdir
    · exact hne (append_eq_nil_iff.1 hnil).1
    · rw [ih] at hdir
      cases hdir

theorem not_isLink_of_findLink : ∀ {rest path dir tail : Path} {part : Part},
    fs.findLink path rest = .none → up ∉ rest → rest = dir ++ part :: tail →
      ¬ fs.IsLink (path ++ dir ++ [part])
  | [], path, dir, tail, part, _, _, heq => absurd heq (by simp)
  | x :: rest, path, dir, tail, part, h, hup, heq => by
    rw [mem_cons, not_or] at hup
    rw [findLink, if_neg (Ne.symm hup.1)] at h
    rintro ⟨absolute, target, hlink⟩
    rcases dir with _ | ⟨y, dir⟩
    · -- The link would have been found here.
      obtain ⟨rfl, rfl⟩ := List.cons.inj heq
      rw [append_nil] at hlink
      rw [hlink] at h
      cases h
    · obtain ⟨rfl, hrest⟩ := List.cons.inj heq
      have hbelow : path ++ x :: dir ++ [part] = path ++ [x] ++ (dir ++ [part]) := by simp
      split at h
      · cases h
      · split_ifs at h with hnil
        rw [hnil] at hrest
        exact absurd hrest (by simp)
      · exact not_isLink_of_findLink h hup.2 hrest ⟨absolute, target, by simpa using hlink⟩
      next hnone =>
        rw [hbelow, get?_append_of_none hnone (by simp)] at hlink
        cases hlink

/-- Where no link is found, there is none. -/
theorem plain_of_findLink (h : fs.findLink [] p = .none) (hup : up ∉ p) : fs.Plain p :=
  fun _ _ _ heq => not_isLink_of_findLink h hup heq

end FileSystem

end PosixPath
