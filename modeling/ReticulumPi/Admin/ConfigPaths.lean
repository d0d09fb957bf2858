import ReticulumPi.Lib.LineBreaks
import ReticulumPi.Lib.Lines
import ReticulumPi.Lib.Replace

/-!
# Legacy paths in the configuration

`reticulumpi-admin` rewrites the paths of a configuration that lead into the
home of the service user of an older installation: the plan looks for the first
legacy home that an active line mentions (`planLegacyConfigPathMigration`), and
the migration puts the data directory in its place, checks that a second plan
finds nothing left, and raises otherwise (`applyLegacyConfigPathMigration`).

The file is a regular one, and its text what its UTF-8 bytes decode to; its
digest is a parameter. The legacy homes come in the order in which they are
discovered. The owner and the mode of the file are left out.
-/

namespace ReticulumPi.Admin.ConfigPaths

open PyStr

/-! ## Lines of the configuration -/

variable (line : List Char)

/-- A blank line or a comment. -/
def ignored : Bool :=
  (strip line).isEmpty || (lstrip line).head? = some '#'

/-- The rest of a text that begins with `start`. -/
def afterStart (start s : List Char) : Option (List Char) :=
  if start.isPrefixOf s then some (s.drop start.length) else none

/-- The text without a newline at its end, if it has one there. -/
def withoutNewline (s : List Char) : List Char :=
  if s.getLast? = some '\n' then
    if s.dropLast.getLast? = some '\r' then s.dropLast.dropLast else s.dropLast
  else s

/-- `len(line) - len(line.lstrip(" "))` -/
def indentation : ℕ := (line.takeWhile (· = ' ')).length

/-- `_yaml_key_line` -/
def yamlKeyLine (line key : List Char) : Option (ℕ × List Char) :=
  if ignored line then none
  else
    (afterStart key (line.dropWhile (· = ' '))).bind fun rest =>
      (afterStart [':'] (lstrip rest)).bind fun rest =>
        let scalar := withoutNewline (lstrip rest)
        if '\n' ∈ scalar then none else some (indentation line, scalar)

/-- The line is that of `key`, with nothing but a comment after it: the indentation. -/
def blockHeader (line key : List Char) : Option ℕ :=
  (yamlKeyLine line key).bind fun (indent, scalar) =>
    if (strip (scalar.takeWhile (· ≠ '#'))).isEmpty then some indent else none

/-- `re.fullmatch(r"\s*meshchat_server\s*:\s*(?:#.*)?", line.rstrip("\r\n"))` -/
def startsMeshchat : Bool :=
  let body := line.rdropWhile fun c => c = '\r' || c = '\n'
  ((afterStart "meshchat_server".toList (lstrip body)).bind fun rest =>
    afterStart [':'] (lstrip rest)).any fun rest =>
      (lstrip rest).isEmpty || ((lstrip rest).head? = some '#' && '\n' ∉ lstrip rest)

/-- What the search for the MeshChat block reads of a line. -/
structure ConfigLine where
  ignored : Bool
  indentation : ℕ
  plugins : Option ℕ
  meshchat : Bool
deriving DecidableEq

/-- A line as the search for the MeshChat block sees it. -/
def ConfigLine.read : ConfigLine where
  ignored := ConfigPaths.ignored line
  indentation := ConfigPaths.indentation line
  plugins := blockHeader line "plugins".toList
  meshchat := startsMeshchat line

/-- What is raised: an `AdminError`, or an error in a replacement template. -/
inductive Raised where
  | adminError (message : String)
  | templateError
deriving DecidableEq

/-- The active lines after the `plugins` header, up to one that is indented no further. -/
def activeAfter (pluginsIndent : ℕ) : ℕ → List ConfigLine → List (ℕ × ConfigLine)
  | _, [] => []
  | index, line :: lines =>
    if line.ignored then activeAfter pluginsIndent (index + 1) lines
    else if line.indentation ≤ pluginsIndent then []
    else (index, line) :: activeAfter pluginsIndent (index + 1) lines

/-- Where a block ends: at an active line that is indented no further. -/
def blockEnd (indent : ℕ) : ℕ → List ConfigLine → ℕ
  | index, [] => index
  | index, line :: lines =>
    if line.ignored = false ∧ line.indentation ≤ indent then index
    else blockEnd indent (index + 1) lines

/-- `_meshchat_server_block`, from what it reads of the lines: where the block
    begins and ends. -/
def meshchatServerBlock (lines : List ConfigLine) : Except Raised (Option (ℕ × ℕ)) :=
  match lines.zipIdx.filterMap fun (line, index) => line.plugins.map fun indent => (index, indent)
  with
  | [] => .ok none
  | [(pluginsIndex, pluginsIndent)] =>
    let active := activeAfter pluginsIndent (pluginsIndex + 1) (lines.drop (pluginsIndex + 1))
    match (active.map (·.2.indentation)).min? with
    | none => .ok none
    | some pluginIndent =>
      match active.filter fun (_, line) => line.indentation = pluginIndent ∧ line.meshchat = true with
      | [] => .ok none
      | [(start, _)] =>
        .ok (some (start, blockEnd pluginIndent (start + 1) (lines.drop (start + 1))))
      | _ => .error (.adminError "configuration contains multiple meshchat_server blocks")
  | _ => .error (.adminError "configuration contains multiple plugins blocks")

/-- Which lines may be rewritten: the active ones outside the MeshChat block. -/
def rewritable (lines : List ConfigLine) : Except Raised (List Bool) :=
  (meshchatServerBlock lines).map fun block =>
    lines.zipIdx.map fun (line, index) =>
      !block.any (fun (start, stop) => start ≤ index && index < stop) && !line.ignored

/-! ## Mentions of a home -/

/-- `[/\s'"#,:;\]}]` -/
def isBoundary (c : Char) : Bool :=
  isSpace c || c ∈ ['/', Char.ofNat 0x27, Char.ofNat 0x22, '#', ',', ':', ';', ']', Char.ofNat 0x7d]

/-- The lookahead of `_legacy_config_path_pattern`: the end, or a boundary. -/
def atBoundary (rest : List Char) : Bool := rest.head?.all isBoundary

/-- `len(pattern.findall(line))` -/
def mentions (home line : List Char) : ℕ := (Literal.places home atBoundary line).length

/-- The mentions in the lines that may be rewritten. -/
def countMentions (home : List Char) (flags : List Bool) (lines : List (List Char)) : ℕ :=
  ((flags.zip lines).map fun (flag, line) => if flag then mentions home line else 0).sum

/-! ## Replacement templates -/

/-- The value of an octal digit. -/
def octal (c : Char) : Option ℕ :=
  if '0' ≤ c ∧ c ≤ '7' then some (c.toNat - '0'.toNat) else none

/-- The escape `\` with `c`, other than a group or a number. -/
def escape (c : Char) : Option (List Char) :=
  if c = 'a' then some [Char.ofNat 7] else if c = 'b' then some [Char.ofNat 8]
  else if c = 'f' then some [Char.ofNat 12] else if c = 'n' then some ['\n']
  else if c = 'r' then some ['\r'] else if c = 't' then some ['\t']
  else if c = 'v' then some [Char.ofNat 11] else if c = Char.ofNat 0x5c then some [c]
  else if c.isAlpha ∧ c.toNat < 128 then none
  else some [Char.ofNat 0x5c, c]

/-- What `re` makes of a replacement template for a pattern without groups,
    `matched` being the text of the match; `none` where it raises. Each step
    uses up some of the template, of which `fuel` bounds the length. -/
def expand (matched : List Char) : ℕ → List Char → Option (List Char)
  | 0, _ => some []
  | _, [] => some []
  | fuel + 1, c :: rest =>
    if c ≠ Char.ofNat 0x5c then (expand matched fuel rest).map (c :: ·)
    else match rest with
      | [] => none
      | 'g' :: '<' :: rest =>
        let name := rest.takeWhile (· ≠ '>')
        if name ≠ [] ∧ name.all (· = '0') ∧ name.length < rest.length then
          (expand matched fuel (rest.drop (name.length + 1))).map (matched ++ ·)
        else none
      | 'g' :: _ => none
      | '0' :: rest =>
        match rest.head?.bind octal, (rest.drop 1).head?.bind octal with
        | some d, some e =>
          (expand matched fuel (rest.drop 2)).map (Char.ofNat ((8 * d + e) % 256) :: ·)
        | some d, none => (expand matched fuel (rest.drop 1)).map (Char.ofNat d :: ·)
        | none, _ => (expand matched fuel rest).map (Char.ofNat 0 :: ·)
      | c :: rest =>
        if c.isDigit then
          match octal c, rest.head?.bind octal, (rest.drop 1).head?.bind octal with
          | some a, some d, some e =>
            if 64 * a + 8 * d + e ≤ 255 then
              (expand matched fuel (rest.drop 2)).map (Char.ofNat (64 * a + 8 * d + e) :: ·)
            else none
          | _, _, _ => none
        else (escape c).bind fun text => (expand matched fuel rest).map (text ++ ·)

/-- The template with `matched` as the text of the match. -/
def expandTemplate (matched template : List Char) : Option (List Char) :=
  expand matched template.length template

/-! ## Planning and applying -/

/-- `LegacyConfigPathMigration` -/
structure LegacyConfigPathMigration (δ : Type*) where
  sourcePrefix : List Char
  destinationPrefix : List Char
  replacementCount : ℕ
  sourceSha256 : δ

variable {δ : Type*} (sha256 : List Char → δ)

/-- The first of the homes that is mentioned, and how often. -/
def firstMentioned (destination : List Char) (count : List Char → ℕ) :
    List (List Char) → Except Raised (Option (List Char × ℕ))
  | [] => .ok none
  | home :: homes =>
    if home.head? ≠ some '/' then
      .error (.adminError ("service user has an invalid home directory: " ++ String.ofList home))
    else if home = destination then firstMentioned destination count homes
    else if 0 < count home then .ok (some (home, count home))
    else firstMentioned destination count homes

/-- The lines that are read: `read_text().splitlines(keepends=True)`. -/
def readLines (text : List Char) : List (List Char) := splitlines (Lines.universal false text)

/-- `_plan_legacy_config_path_migration`, for an existing regular file. -/
def planLegacyConfigPathMigration (homes : List (List Char)) (destination text : List Char) :
    Except Raised (Option (LegacyConfigPathMigration δ)) :=
  let lines := (readLines text).map chomp
  (rewritable (lines.map .read)).bind fun flags =>
    (firstMentioned destination (countMentions · flags lines) homes).map fun found =>
      found.map fun (home, count) => ⟨home, destination, count, sha256 text⟩

/-- The lines with `replacement` in the place of the home. -/
def migrate (home replacement : List Char) (flags : List Bool) (lines : List (List Char)) :
    List (List Char) :=
  List.zipWith (fun flag line =>
    if flag then Literal.replace home atBoundary (fun _ => replacement) line else line) flags lines

/-- The migrated lines; the template is read where there is a line to use it on. -/
def migrateWith (home template : List Char) (flags : List Bool) (lines : List (List Char)) :
    Option (List (List Char)) :=
  if true ∈ flags then
    (expandTemplate home template).map fun replacement => migrate home replacement flags lines
  else some lines

variable [DecidableEq δ]

/-- `_apply_legacy_config_path_migration`: the text of the file afterwards, and
    what is raised, if anything. -/
def applyLegacyConfigPathMigration (migration : LegacyConfigPathMigration δ)
    (homes : List (List Char)) (destination text : List Char) : List Char × Except Raised Unit :=
  if sha256 text ≠ migration.sourceSha256 then
    (text, .error (.adminError
      "configuration changed after the legacy-path migration was planned"))
  else
    let lines := readLines text
    match rewritable (lines.map .read) with
    | .error e => (text, .error e)
    | .ok flags =>
      match migrateWith migration.sourcePrefix migration.destinationPrefix flags lines with
      | none => (text, .error .templateError)
      | some migrated =>
        if countMentions migration.sourcePrefix flags lines ≠ migration.replacementCount then
          (text, .error (.adminError "legacy configuration path count changed during migration"))
        else
          match planLegacyConfigPathMigration sha256 homes destination migrated.flatten with
          | .ok none => (migrated.flatten, .ok ())
          | .ok (some _) => (migrated.flatten,
              .error (.adminError "legacy configuration path migration did not validate"))
          | .error e => (migrated.flatten, .error e)

end ReticulumPi.Admin.ConfigPaths
