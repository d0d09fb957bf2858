import Mathlib.Data.List.DropRight
import Mathlib.Logic.Function.Iterate

/-!
# Quotes in the configuration

The recovery administrator reads the lines of the configuration with three
scanners that keep track of quotes, each for itself (`recovery_config.py`):
`_strip_comment` and `_mapping_entry` go over a line with an index, and skip a
single quote that is doubled; `_unquoted_projection` goes over it character by
character. At a place that all of them come to they agree on the quotes.
-/

namespace ReticulumPi.Recovery

open List

abbrev doubleQuote : Char := Char.ofNat 0x22

abbrev singleQuote : Char := Char.ofNat 0x27

abbrev backslash : Char := Char.ofNat 0x5c

/-- The variables `quote` and `escaped`. -/
structure Quoting where
  quote : Option Char := none
  escaped : Bool := false
  deriving DecidableEq

/-- The variables of the loops with an index. -/
structure Cursor extends Quoting where
  index : ℕ := 0
  deriving DecidableEq

/-! ## The scanners -/

/-- The body of the loop in `_strip_comment` and in `_mapping_entry`, which look
    for other characters outside quotes; `none` is the end of the loop. -/
def advance (found : List Char → ℕ → Char → Bool) (raw : List Char) (s : Cursor) :
    Option Cursor :=
  match raw[s.index]? with
  | none => none
  | some character =>
    if s.escaped then some { s with escaped := false, index := s.index + 1 }
    else if s.quote = some doubleQuote ∧ character = backslash then
      some { s with escaped := true, index := s.index + 1 }
    else if s.quote.isSome then
      if s.quote = some singleQuote ∧ character = singleQuote ∧
          (raw.drop s.index).take 2 = [singleQuote, singleQuote] then
        some { s with index := s.index + 2 }
      else if s.quote = some character then
        some { s with quote := none, index := s.index + 1 }
      else some { s with index := s.index + 1 }
    else if character = doubleQuote ∨ character = singleQuote then
      some { s with quote := some character, index := s.index + 1 }
    else if found raw s.index character then none
    else some { s with index := s.index + 1 }

/-- The loop, after `n` rounds. Each of them goes on to a later character, so that
    as many rounds as there are characters end it. -/
def rounds (step : Cursor → Option Cursor) (n : ℕ) : Cursor := (fun s => (step s).getD s)^[n] {}

def rstripSpaces (s : List Char) : List Char := s.rdropWhile (· = ' ')

def lstripSpaces (s : List Char) : List Char := s.dropWhile (· = ' ')

def stripSpaces (s : List Char) : List Char := rstripSpaces (lstripSpaces s)

/-- The loop of `_strip_comment` looks for the start of a comment. -/
def stripCommentStep : List Char → Cursor → Option Cursor :=
  advance fun raw index character =>
    character = '#' && (index = 0 || raw[index - 1]? = some ' ')

/-- `_strip_comment`. -/
def stripComment (raw : List Char) (number : ℕ) : Except String (List Char) :=
  let s := rounds (stripCommentStep raw) raw.length
  if s.index < raw.length then .ok (rstripSpaces (raw.take s.index))
  else if s.quote.isSome then
    .error ("line " ++ toString number ++ ": unterminated quoted scalar")
  else .ok (rstripSpaces raw)

/-- The body of the loop in `_unquoted_projection`. -/
def project (s : Quoting × List Char) (character : Char) : Quoting × List Char :=
  let (m, projected) := s
  if m.escaped then ({ m with escaped := false }, projected ++ [' '])
  else if m.quote = some doubleQuote ∧ character = backslash then
    ({ m with escaped := true }, projected ++ [' '])
  else if m.quote.isSome then
    (if m.quote = some character then { m with quote := none } else m, projected ++ [' '])
  else if character = doubleQuote ∨ character = singleQuote then
    ({ m with quote := some character }, projected ++ [' '])
  else (m, projected ++ [character])

/-- `_unquoted_projection`. -/
def unquotedProjection (raw : List Char) : List Char := (raw.foldl project ({}, [])).2

/-- The loop of `_mapping_entry` looks for the delimiter. -/
def mappingEntryStep : List Char → Cursor → Option Cursor :=
  advance fun _ _ character => character = ':'

/-- `_mapping_entry`, up to the key as it is written and the value. -/
def mappingEntry (line : List Char) : Option (List Char × List Char) :=
  let text := stripSpaces line
  let delimiter := (rounds (mappingEntryStep text) text.length).index
  if text.length ≤ delimiter then none
  else if delimiter + 1 < text.length ∧ text[delimiter + 1]? ≠ some ' ' then none
  else
    let rawKey := stripSpaces (text.take delimiter)
    if rawKey = [] then none else some (rawKey, stripSpaces (text.drop (delimiter + 1)))

/-! ## What they take for quoted -/

/-- The loop comes to a character in the state `s`. -/
def Visits (step : List Char → Cursor → Option Cursor) (raw : List Char) (s : Cursor) : Prop :=
  (∃ n, rounds (step raw) n = s) ∧ s.index < raw.length

/-- The variables with which `_unquoted_projection` comes to the character `i`. -/
def quotingAt (raw : List Char) (i : ℕ) : Quoting := ((raw.take i).foldl project ({}, [])).1

variable {found : List Char → ℕ → Char → Bool} {raw text : List Char} {s s' : Cursor}

/-- The body of the projection's loop, on the variables alone. -/
def Quoting.next (m : Quoting) (character : Char) : Quoting := (project (m, []) character).1

theorem project_fst (p : Quoting × List Char) (c : Char) : (project p c).1 = p.1.next c := by
  simp only [Quoting.next, project]
  split_ifs <;> rfl

theorem quotingAt_eq (i : ℕ) : quotingAt raw i = (raw.take i).foldl Quoting.next {} :=
  (foldl_hom Prod.fst fun p c => (project_fst p c).symm).symm

theorem quotingAt_succ {i : ℕ} {c : Char} (h : raw[i]? = some c) :
    quotingAt raw (i + 1) = (quotingAt raw i).next c := by
  rw [quotingAt_eq, take_add_one, h, Option.toList_some, foldl_append, foldl_cons,
    foldl_nil, quotingAt_eq]

/-- The variables of a loop are those of the projection. -/
def Agrees (raw : List Char) (s : Cursor) : Prop := s.toQuoting = quotingAt raw s.index

/-- A round of a loop keeps them so: over a single quote that is doubled the
    projection leaves the quotes, and is in them again. -/
theorem Agrees.advance (hs : Agrees raw s) (h : advance found raw s = some s') : Agrees raw s' := by
  obtain ⟨⟨quote, escaped⟩, i⟩ := s
  simp only [Agrees] at hs
  rw [Recovery.advance] at h
  cases hc : raw[i]? with
  | none => simp [hc] at h
  | some c =>
    have hnext := quotingAt_succ hc
    rw [← hs] at hnext
    simp only [hc] at h
    by_cases hdouble : escaped = false ∧ quote = some singleQuote ∧ c = singleQuote ∧
        (raw.drop i).take 2 = [singleQuote, singleQuote]
    · obtain ⟨rfl, rfl, rfl, htwo⟩ := hdouble
      have hc' : raw[i + 1]? = some singleQuote := by
        rw [← getElem?_drop, ← getElem?_take_of_lt Nat.one_lt_two, htwo]
        rfl
      obtain rfl : _ = s' := by simpa [htwo, singleQuote, doubleQuote] using h
      rw [Agrees, show i + 2 = i + 1 + 1 from rfl, quotingAt_succ hc', hnext]
      rfl
    · split_ifs at h with h₁ h₂ h₃ h₄ h₅ h₆ h₇ <;> obtain rfl := Option.some.inj h <;>
        simp_all [Agrees, Quoting.next, project]
      rw [if_neg fun hc : c = doubleQuote ∧ c = backslash => h₂ hc.1 (hc.1 ▸ hc.2)]

theorem agrees_rounds (n : ℕ) : Agrees raw (rounds (advance found raw) n) := by
  induction n with
  | zero => rfl
  | succ n ih =>
    rw [rounds, Function.iterate_succ_apply', ← rounds]
    cases h : advance found raw (rounds (advance found raw) n) with
    | none => exact ih
    | some s => exact ih.advance h

/-- Spaces at the start of a line leave the variables as they are. -/
theorem quotingAt_spaces {spaces : List Char} (h : ∀ c ∈ spaces, c = ' ') (i : ℕ) :
    quotingAt (spaces ++ text) (spaces.length + i) = quotingAt text i := by
  induction spaces with
  | nil => rw [nil_append, length_nil, Nat.zero_add]
  | cons c spaces ih =>
    obtain rfl := h c (by simp)
    rw [← ih fun c hc => h c (by simp [hc]), length_cons, Nat.add_right_comm,
      cons_append, quotingAt_eq, quotingAt_eq, take_succ_cons]
    rfl

theorem quotingAt_of_prefix {i : ℕ} (h : text <+: raw) (hi : i ≤ text.length) :
    quotingAt text i = quotingAt raw i := by
  rw [quotingAt, quotingAt, prefix_iff_eq_take.1 h, take_take, Nat.min_eq_left hi]

theorem rstripSpaces_prefix (l : List Char) : rstripSpaces l <+: l := rdropWhile_prefix _ _

theorem prefix_of_stripComment {number : ℕ} (h : stripComment raw number = .ok text) :
    text <+: raw := by
  rw [stripComment] at h
  split_ifs at h <;> obtain rfl := Except.ok.inj h
  · exact ( rstripSpaces_prefix _).trans (List.take_prefix _ _)
  · exact rstripSpaces_prefix _

/-- At a character of a line that `_strip_comment` and `_mapping_entry` come to,
    in the line itself or in what is left of it without the comment, the three
    scanners have the same quotes around it. -/
theorem quoting_agrees (number : ℕ)
    (htext : text = raw ∨ stripComment raw number = .ok text)
    {e : Cursor} (hs : Visits stripCommentStep raw s)
    (he : Visits mappingEntryStep (stripSpaces text) e)
    (hse : s.index = e.index + (text.takeWhile (· = ' ')).length) :
    e.toQuoting = s.toQuoting ∧ quotingAt raw s.index = s.toQuoting ∧
      quotingAt text s.index = s.toQuoting := by
  obtain ⟨⟨n, hn⟩, -⟩ := hs
  obtain ⟨⟨m, hm⟩, hlt⟩ := he
  have hs : Agrees raw s := hn ▸ agrees_rounds n
  have he : Agrees (stripSpaces text) e := hm ▸ agrees_rounds m
  have hprefix : text <+: raw := by
    rcases htext with rfl | htext
    · exact prefix_rfl
    · exact prefix_of_stripComment htext
  have hstrip := rstripSpaces_prefix (lstripSpaces text)
  have htext : text.takeWhile (· = ' ') ++ lstripSpaces text = text :=
    takeWhile_append_dropWhile
  have hlen := congrArg List.length htext
  rw [length_append] at hlen
  have hle : s.index ≤ text.length := by
    have := hstrip.length_le
    rw [stripSpaces] at hlt
    omega
  have hquoting : e.toQuoting = quotingAt text s.index :=
    calc e.toQuoting = quotingAt (lstripSpaces text) e.index :=
          he.trans ( quotingAt_of_prefix hstrip hlt.le)
      _ = quotingAt (text.takeWhile (· = ' ') ++ lstripSpaces text)
            ((text.takeWhile (· = ' ')).length + e.index) :=
          (quotingAt_spaces (fun c hc => by simpa using mem_takeWhile_imp hc) _).symm
      _ = quotingAt text s.index := by rw [htext, hse, Nat.add_comm]
  have hraw := quotingAt_of_prefix hprefix hle
  exact ⟨hquoting.trans (hraw.trans hs.symm), hs.symm, hraw.trans hs.symm⟩

/-- With a doubled quote, a quote in the middle of a plain scalar and a comment. -/
theorem quoting_agrees_doubled :
    let s := rounds (stripCommentStep "  'a''#b' c'd': e # f".toList) 11
    s.quote = some singleQuote ∧ quotingAt "  'a''#b' c'd': e # f".toList 12 = s.toQuoting :=
  ⟨by decide, (quoting_agrees 1 (.inl rfl)
    (e := rounds (mappingEntryStep (stripSpaces "  'a''#b' c'd': e # f".toList)) 9)
    ⟨⟨11, rfl⟩, by decide⟩ ⟨⟨9, rfl⟩, by decide⟩ (by decide)).2.1⟩

end ReticulumPi.Recovery
