import Mathlib
import ReticulumPi.Lib.Framing

/-!
# The digest of an artifact tree

External programs are reviewed as directory trees, and a tree is bound by one
SHA-256 digest (`tree_sha256`): over a stream of records, one for each directory,
file and link, in the order of a walk from the root. What the walk finds cannot be
special, and has to be readable; a link to a directory has to stay in the tree, and
is not followed.

`os.walk` passes over a directory that it cannot list, and says nothing.
-/

namespace ReticulumPi.Artifacts

open PyCodec

/-! ## Trees -/

/-- A name in a directory. -/
structure Name where
  bytes : List Byte
  ne_nil : bytes ≠ []
  noSlash : byte 0x2f ∉ bytes
  ne_dot : bytes ≠ [byte 0x2e]
deriving DecidableEq

/-- What a link points to, as it is written. -/
structure LinkText where
  bytes : List Byte
  noNul : byte 0 ∉ bytes
deriving DecidableEq

/-- What `lstat` says: the owner, and the permission bits. -/
structure Stat where
  uid : ℕ
  mode : ℕ
deriving DecidableEq

/-- What a link resolves to, and whether the ancestry of that is trusted: a directory,
    with its path from the root if it is in the tree, a file with its bytes, or
    anything else, or nothing. -/
inductive Target where
  | directory (inside : Option (List Name)) (trusted : Bool)
  | file (stat : Stat) (content : List Byte) (readable trusted : Bool)
  | other

inductive Node where
  | directory (stat : Stat) (listable : Bool) (entries : List (Name × Node))
  | file (stat : Stat) (content : List Byte) (readable : Bool)
  | link (text : LinkText) (target : Target)
  | special

/-- The bytes of a text in ASCII. -/
def ascii (s : String) : List Byte := s.toList.map fun c => byte c.toNat

/-- `_TREE_CACHE_NAMES` -/
def treeCacheNames : List (List Byte) := [ascii ".git", ascii ".pytest_cache", ascii "__pycache__"]

def Name.IsCache (name : Name) : Prop := name.bytes ∈ treeCacheNames
deriving Decidable

/-! ## Names as texts -/

/-- `os.fsdecode`: a byte that begins no character becomes a surrogate. -/
def fsdecode : List Byte → List ℕ
  | [] => []
  | a :: s =>
    if a.val < 0x80 then a.val :: fsdecode s
    else
      match s with
      | b :: s₁ =>
        if 0xc2 ≤ a.val ∧ a.val < 0xe0 ∧ isTail b then
          ((a.val - 0xc0) * 0x40 + (b.val - 0x80)) :: fsdecode s₁
        else
          match s₁ with
          | c :: s₂ =>
            if 0xe0 ≤ a.val ∧ a.val < 0xf0 ∧ isTail b ∧ isTail c ∧
                (a.val = 0xe0 → 0xa0 ≤ b.val) ∧ (a.val = 0xed → b.val < 0xa0) then
              (((a.val - 0xe0) * 0x40 + (b.val - 0x80)) * 0x40 + (c.val - 0x80)) :: fsdecode s₂
            else
              match s₂ with
              | d :: s₃ =>
                if 0xf0 ≤ a.val ∧ a.val < 0xf5 ∧ isTail b ∧ isTail c ∧ isTail d ∧
                    (a.val = 0xf0 → 0x90 ≤ b.val) ∧ (a.val = 0xf4 → b.val < 0x90) then
                  ((((a.val - 0xf0) * 0x40 + (b.val - 0x80)) * 0x40 + (c.val - 0x80)) * 0x40 +
                    (d.val - 0x80)) :: fsdecode s₃
                else (0xdc00 + a.val) :: fsdecode (b :: c :: d :: s₃)
              | [] => (0xdc00 + a.val) :: fsdecode [b, c]
          | [] => (0xdc00 + a.val) :: fsdecode [b]
      | [] => [0xdc00 + a.val]

/-- The order of names: that of their texts. -/
def Name.Precedes (a b : Name × Node) : Prop := fsdecode a.1.bytes ≤ fsdecode b.1.bytes
deriving Decidable

/-- `as_posix` of a path from the root, in bytes. -/
def asPosix : List Name → List Byte
  | [] => [byte 0x2e]
  | [name] => name.bytes
  | name :: path => name.bytes ++ byte 0x2f :: asPosix path

/-! ## Records -/

inductive Kind where
  | directory
  | directoryLink
  | file
  | fileLink
deriving DecidableEq

def Kind.text : Kind → String
  | .directory => "directory"
  | .directoryLink => "directory-link"
  | .file => "file"
  | .fileLink => "file-link"

/-- `f"{mode:o}".encode("ascii")` -/
def octal (mode : ℕ) : List Byte := (Nat.toDigits 8 mode).map fun c => byte c.toNat

structure Record where
  kind : Kind
  path : List Name
  mode : ℕ
  payload : List Byte
deriving DecidableEq

/-- The byte strings that stand for a record. -/
def Record.values (r : Record) : List (List Byte) :=
  [ascii r.kind.text, asPosix r.path, octal r.mode, r.payload]

/-- The lengths of the values can be written in eight bytes. -/
def Record.Fits (r : Record) : Prop := ∀ v ∈ r.values, Framing.Fits 8 v

instance (r : Record) : Decidable r.Fits := List.decidableBAll _ r.values

/-! ## The walk -/

/-- What has been fed to the digest, and the counters. -/
structure Progress where
  stream : List Byte := []
  entries : ℕ := 0
  totalBytes : ℕ := 0
deriving DecidableEq

/-- `_feed_tree_record`, of one more entry. -/
def Progress.feed (s : Progress) (r : Record) : Option Progress :=
  if r.Fits then
    some { s with stream := s.stream ++ r.values.flatMap (Framing.frame 8), entries := s.entries + 1 }
  else none

/-- `MAX_TREE_ENTRIES` -/
def maxTreeEntries : ℕ := 100000

/-- `MAX_TREE_BYTES` -/
def maxTreeBytes : ℕ := 2 * 1024 * 1024 * 1024

/-- The check after each file. -/
def Progress.count (s : Progress) (size : ℕ) : Option Progress :=
  let s := { s with totalBytes := s.totalBytes + size }
  if maxTreeEntries < s.entries ∨ maxTreeBytes < s.totalBytes then none else some s

/-- `_validate_trusted_stat`: owned by root, and written by nobody else. -/
def Stat.IsTrusted (stat : Stat) : Prop := stat.uid = 0 ∧ stat.mode &&& 0o022 = 0
deriving Decidable

/-- `is_dir` of an entry, which follows a link. -/
def Node.isDirectory : Node → Bool
  | .directory _ _ _ => true
  | .link _ (.directory _ _) => true
  | _ => false

section Walk

variable (sha256 : List Byte → List Byte) (requireTrusted : Bool)

/-- An entry of the loop over the directories of a directory: only a link gets a
    record. -/
def feedDirectoryName (path : List Name) (s : Progress) : Name × Node → Option Progress
  | (name, .link text (.directory inside trusted)) =>
    match inside with
    | none => none
    | some target =>
      if (∃ part ∈ target, part.IsCache) ∨ (requireTrusted = true ∧ trusted = false) then none
      else
        s.feed
          { kind := .directoryLink, path := path ++ [name], mode := 0,
            payload := text.bytes ++ byte 0 :: asPosix target }
  | _ => some s

/-- An entry of the loop over the files. -/
def feedFileName (path : List Name) (s : Progress) : Name × Node → Option Progress
  | (name, .link text (.file stat content readable trusted)) =>
    if readable = false ∨ (requireTrusted = true ∧ (trusted = false ∨ ¬ stat.IsTrusted)) then none
    else do
      let s ← s.feed
        { kind := .fileLink, path := path ++ [name], mode := 0,
          payload := text.bytes ++ byte 0 :: sha256 content }
      s.count content.length
  | (name, .file stat content readable) =>
    if readable = false ∨ (requireTrusted = true ∧ ¬ stat.IsTrusted) then none
    else do
      let s ← s.feed
        { kind := .file, path := path ++ [name], mode := stat.mode, payload := sha256 content }
      s.count content.length
  | _ => none

/-- The entries of a directory that the walk goes through, in order: the directories
    or the others. -/
def names (directories : Bool) (entries : List (Name × Node)) : List (Name × Node) :=
  (entries.filter fun e => ¬ e.1.IsCache ∧ e.2.isDirectory = directories).insertionSort
    Name.Precedes

theorem mem_names {directories : Bool} {entries : List (Name × Node)} {e : Name × Node} :
    e ∈ names directories entries ↔
      e ∈ entries ∧ ¬ e.1.IsCache ∧ e.2.isDirectory = directories := by
  rw [names, List.mem_insertionSort, List.mem_filter, decide_eq_true_iff]

/-- The walk from a directory on: its own record, the links to directories, the
    files, and then the directories in it. -/
def walk (path : List Name) : Node → Progress → Option Progress
  | .directory stat listable entries, s =>
    if listable = false then some s
    else if requireTrusted = true ∧ ¬ stat.IsTrusted then none
    else do
      let s ← s.feed { kind := .directory, path, mode := stat.mode, payload := [] }
      let s ← (names true entries).foldlM (feedDirectoryName requireTrusted path) s
      let s ← (names false entries).foldlM (feedFileName sha256 requireTrusted path) s
      (names true entries).attach.foldlM (fun s e => walk (path ++ [e.1.1]) e.1.2 s) s
  | _, s => some s
termination_by node => sizeOf node
decreasing_by
  have hmem := (mem_names.1 e.2).1
  have hsize := List.sizeOf_lt_of_mem hmem
  have hpair : sizeOf e.1.2 < sizeOf e.1 := by
    obtain ⟨⟨name, node⟩, -⟩ := e
    simp only [Prod.mk.sizeOf_spec]
    omega
  simp only [Node.directory.sizeOf_spec]
  omega

/-- `tree_sha256`, of what is at the path, whose ancestry may be trusted. -/
def treeSha256 (ancestry : Bool) (root : Node) : Option (List Byte) :=
  match root with
  | .directory _ _ _ =>
    if requireTrusted = true ∧ ancestry = false then none
    else (walk sha256 requireTrusted [] root {}).map fun s => sha256 s.stream
  | _ => none

end Walk

end ReticulumPi.Artifacts
