import Mathlib.Data.List.Basic

/-!
# Texts as lines

The lines of a text, each with the newline it ends in (Python's `readlines`); the
last one may have none. Texts are lists of characters. A list of lines that could
be those of a text is (`IsLines`), so that writing it and reading it again gives
it back (`split_flatten`).
-/

namespace Lines

open List

/-- `readlines`. -/
def split : List Char → List (List Char)
  | [] => []
  | c :: text =>
    if c = '\n' then [c] :: split text
    else match split text with
      | [] => [[c]]
      | line :: lines => (c :: line) :: lines

/-- A line that ends in a newline, its only one. -/
def Terminated (line : List Char) : Prop := ∃ text, '\n' ∉ text ∧ line = text ++ ['\n']

/-- A line without a newline, the last one of a text. -/
def Unterminated (line : List Char) : Prop := line ≠ [] ∧ '\n' ∉ line

/-- The lines of a text. -/
def IsLines : List (List Char) → Prop
  | [] => True
  | line :: lines => (Terminated line ∨ Unterminated line ∧ lines = []) ∧ IsLines lines

attribute [local simp] split

variable {text line : List Char} {lines : List (List Char)}

theorem Terminated.mem (h : Terminated line) : '\n' ∈ line := by
  obtain ⟨text, -, rfl⟩ := h
  exact mem_append_right _ (mem_singleton_self _)

theorem Terminated.cons (h : Terminated line) {c : Char} (hc : c ≠ '\n') :
    Terminated (c :: line) := by
  obtain ⟨text, hno, rfl⟩ := h
  exact ⟨c :: text, by simp [hno, hc.symm], rfl⟩

theorem Unterminated.cons (h : Unterminated line) {c : Char} (hc : c ≠ '\n') :
    Unterminated (c :: line) :=
  ⟨cons_ne_nil _ _, by simp [h.2, hc.symm]⟩

theorem isLines_split (text : List Char) : IsLines (split text) := by
  induction text with
  | nil => trivial
  | cons c text ih =>
    rw [split]
    by_cases hc : c = '\n'
    · rw [if_pos hc]
      exact ⟨.inl ⟨[], not_mem_nil, by rw [hc]; rfl⟩, ih⟩
    · rw [if_neg hc]
      rcases hsplit : split text with _ | ⟨line, lines⟩
      · exact ⟨.inr ⟨⟨cons_ne_nil _ _, by simp [Ne.symm hc]⟩, rfl⟩, trivial⟩
      · rw [hsplit] at ih
        exact ⟨ih.1.imp (·.cons hc) fun h => ⟨h.1.cons hc, h.2⟩, ih.2⟩

theorem split_append_of_terminated (h : Terminated line) (text : List Char) :
    split (line ++ text) = line :: split text := by
  obtain ⟨start, hno, rfl⟩ := h
  induction start with
  | nil => rfl
  | cons c start ih =>
    obtain ⟨hc, hno⟩ := not_or.1 (mt mem_cons.2 hno)
    rw [cons_append, cons_append, split, if_neg (Ne.symm hc), ih hno]

theorem split_of_unterminated (h : Unterminated line) : split line = [line] := by
  obtain ⟨hne, hno⟩ := h
  induction line with
  | nil => exact absurd rfl hne
  | cons c line ih =>
    obtain ⟨hc, hno⟩ := not_or.1 (mt mem_cons.2 hno)
    rw [split, if_neg (Ne.symm hc)]
    rcases line with _ | ⟨d, line⟩
    · rfl
    · rw [ih (cons_ne_nil _ _) hno]

/-- What is written is what is read again. -/
theorem split_flatten (h : IsLines lines) : split lines.flatten = lines := by
  induction lines with
  | nil => rfl
  | cons line lines ih =>
    rw [flatten_cons]
    rcases h.1 with hline | ⟨hline, rfl⟩
    · rw [split_append_of_terminated hline, ih h.2]
    · rw [flatten_nil, append_nil, split_of_unterminated hline]

@[simp] theorem flatten_split (text : List Char) : (split text).flatten = text := by
  induction text with
  | nil => rfl
  | cons c text ih =>
    rw [split]
    by_cases hc : c = '\n'
    · rw [if_pos hc, flatten_cons, ih]
      rfl
    · rw [if_neg hc]
      rcases hsplit : split text with _ | ⟨line, lines⟩
      all_goals
        rw [hsplit] at ih
        rw [← ih]
        rfl

/-- A line is terminated if what it ends in is, and there is no newline before. -/
theorem terminated_append_iff {before after : List Char} (hne : after ≠ []) :
    Terminated (before ++ after) ↔ '\n' ∉ before ∧ Terminated after := by
  constructor
  · rintro ⟨text, hno, htext⟩
    obtain ⟨init, c, rfl⟩ := eq_nil_or_concat' after |>.resolve_left hne
    rw [← append_assoc] at htext
    obtain ⟨rfl, hc⟩ := append_inj' htext rfl
    rw [mem_append, not_or] at hno
    exact ⟨hno.1, init, hno.2, by rw [hc]⟩
  · rintro ⟨hbefore, text, hno, rfl⟩
    exact ⟨before ++ text, by rw [mem_append, not_or]; exact ⟨hbefore, hno⟩,
      (append_assoc _ _ _).symm⟩

/-- Lines are lines up to any point: what comes before another line is terminated. -/
theorem isLines_append {lines' : List (List Char)} :
    IsLines (lines ++ lines') ↔
      IsLines lines ∧ IsLines lines' ∧ (lines' ≠ [] → ∀ line ∈ lines, Terminated line) := by
  induction lines with
  | nil => simp [IsLines]
  | cons line lines ih =>
    rw [cons_append, IsLines, IsLines, ih]
    constructor
    · rintro ⟨hline, hlines, hlines', hall⟩
      refine ⟨⟨hline.imp_right fun h => ⟨h.1, (append_eq_nil_iff.1 h.2).1⟩, hlines⟩, hlines',
        fun hne l hl => ?_⟩
      rcases mem_cons.1 hl with rfl | hl
      · exact hline.resolve_right fun h => hne (append_eq_nil_iff.1 h.2).2
      · exact hall hne l hl
    · rintro ⟨⟨hline, hlines⟩, hlines', hall⟩
      refine ⟨?_, hlines, hlines', fun hne l hl => hall hne l (mem_cons_of_mem _ hl)⟩
      rcases lines' with _ | ⟨line', lines'⟩
      · exact hline.imp_right fun h => ⟨h.1, by rw [h.2]; rfl⟩
      · exact .inl (hall (cons_ne_nil _ _) line mem_cons_self)

theorem IsLines.of_mem (h : IsLines lines) (hline : line ∈ lines) :
    Terminated line ∨ Unterminated line := by
  obtain ⟨before, after, rfl⟩ := append_of_mem hline
  exact (isLines_append.1 h).2.1.1.imp_right And.left

/-! ## Other newlines -/

/-- The text that is read: a carriage return is a newline, as it is with the newline
    after it. -/
def universal (afterReturn : Bool) : List Char → List Char
  | [] => []
  | c :: text =>
    if c = '\r' then '\n' :: universal true text
    else if afterReturn ∧ c = '\n' then universal false text
    else c :: universal false text

attribute [local simp] universal

theorem not_mem_universal (afterReturn : Bool) (text : List Char) :
    '\r' ∉ universal afterReturn text := by
  induction text generalizing afterReturn with
  | nil => exact not_mem_nil
  | cons c text ih =>
    rw [universal]
    split_ifs with hc hn
    · rw [mem_cons, not_or]
      exact ⟨by decide, ih true⟩
    · exact ih false
    · rw [mem_cons, not_or]
      exact ⟨Ne.symm hc, ih false⟩

theorem universal_of_not_mem (h : '\r' ∉ text) : universal false text = text := by
  induction text with
  | nil => rfl
  | cons c text ih =>
    obtain ⟨hc, htext⟩ := not_or.1 (mt mem_cons.2 h)
    rw [universal, if_neg (Ne.symm hc), if_neg (fun hn => Bool.false_ne_true hn.1), ih htext]

theorem universal_append_of_not_mem (h : '\r' ∉ text) (after : List Char) :
    universal false (text ++ after) = text ++ universal false after := by
  induction text with
  | nil => rfl
  | cons c text ih =>
    obtain ⟨hc, htext⟩ := not_or.1 (mt mem_cons.2 h)
    rw [cons_append, universal, if_neg (Ne.symm hc),
      if_neg (fun hn => Bool.false_ne_true hn.1), ih htext]
    rfl

/-- What comes after a newline is read by itself. -/
theorem universal_append_newline (afterReturn : Bool) (before after : List Char) :
    universal afterReturn (before ++ '\n' :: after) =
      universal afterReturn (before ++ ['\n']) ++ universal false after := by
  induction before generalizing afterReturn with
  | nil =>
    rcases afterReturn with _ | _ <;> rfl
  | cons c before ih =>
    rw [cons_append, cons_append, universal, universal]
    split_ifs
    · rw [ih, cons_append]
    · exact ih false
    · rw [ih, cons_append]

/-- A text is the lines up to a newline, and those after it. -/
theorem split_append_newline (before after : List Char) :
    split (before ++ '\n' :: after) = split (before ++ ['\n']) ++ split after := by
  induction before with
  | nil => rfl
  | cons c before ih =>
    rw [cons_append, cons_append, split, split, ih]
    by_cases hc : c = '\n'
    · rw [if_pos hc, if_pos hc]
      rfl
    · rw [if_neg hc, if_neg hc]
      rcases hsplit : split (before ++ ['\n']) with _ | ⟨line, lines⟩
      · have := flatten_split (before ++ ['\n'])
        rw [hsplit] at this
        exact absurd this.symm (append_ne_nil_of_right_ne_nil _ (cons_ne_nil _ _))
      · rfl

theorem split_append_of_newline (h : ∃ before, text = before ++ ['\n']) (after : List Char) :
    split (text ++ after) = split text ++ split after := by
  obtain ⟨before, rfl⟩ := h
  rw [append_assoc]
  exact split_append_newline before after

/-- A text that ends in a newline is read as one that does. -/
theorem universal_newline (before : List Char) :
    ∃ text, universal false (before ++ ['\n']) = text ++ ['\n'] := by
  -- After a carriage return at the end, the newline is read as part of it.
  have hall : ∀ afterReturn, (∃ text, universal afterReturn (before ++ ['\n']) = text ++ ['\n']) ∨
      afterReturn = true ∧ universal afterReturn (before ++ ['\n']) = [] := by
    induction before with
    | nil =>
      rintro (_ | _)
      · exact .inl ⟨[], rfl⟩
      · exact .inr ⟨rfl, rfl⟩
    | cons c before ih =>
      intro afterReturn
      rw [cons_append, universal]
      split_ifs
      · rcases ih true with ⟨text, htext⟩ | ⟨-, htext⟩
        · exact .inl ⟨'\n' :: text, by rw [htext]; rfl⟩
        · exact .inl ⟨[], by rw [htext]; rfl⟩
      · exact .inl ((ih false).resolve_right fun h => Bool.false_ne_true h.1)
      · obtain ⟨text, htext⟩ := (ih false).resolve_right fun h => Bool.false_ne_true h.1
        exact .inl ⟨c :: text, by rw [htext]; rfl⟩
  exact (hall false).resolve_right fun h => Bool.false_ne_true h.1

/-! ## Edited lines -/

/-- The one line ends like the other. -/
def Like (line line' : List Char) : Prop :=
  (Terminated line → Terminated line') ∧ (Unterminated line → Unterminated line')

/-- Some of the lines are replaced by lines that end like them, and new lines are
    inserted after terminated ones. -/
inductive Edited : List (List Char) → List (List Char) → Prop
  | nil : Edited [] []
  | cons {line line' : List Char} {lines lines' : List (List Char)} (hline : Like line line')
      (h : Edited lines lines') : Edited (line :: lines) (line' :: lines')
  | insert {line new : List Char} {lines lines' : List (List Char)} (hline : Terminated line)
      (hnew : Terminated new) (h : Edited lines lines') :
      Edited (line :: lines) (line :: new :: lines')

theorem Like.refl (line : List Char) : Like line line := ⟨id, id⟩

theorem Edited.refl : ∀ lines, Edited lines lines
  | [] => .nil
  | line :: lines => .cons (.refl line) (Edited.refl lines)

theorem Edited.append {lines₁ lines₁' lines₂ lines₂' : List (List Char)}
    (h₁ : Edited lines₁ lines₁') (h₂ : Edited lines₂ lines₂') :
    Edited (lines₁ ++ lines₂) (lines₁' ++ lines₂') := by
  induction h₁ with
  | nil => exact h₂
  | cons hline _ ih => exact .cons hline ih
  | insert hline hnew _ ih => exact .insert hline hnew ih

theorem Edited.map {f : List Char → List Char} (hf : ∀ line ∈ lines, Like line (f line)) :
    Edited lines (lines.map f) := by
  induction lines with
  | nil => exact .nil
  | cons line lines ih =>
    obtain ⟨hline, hlines⟩ := forall_mem_cons.1 hf
    exact .cons hline (ih hlines)

/-- Edited lines are lines. -/
theorem Edited.isLines {lines' : List (List Char)} (h : Edited lines lines') (hl : IsLines lines) :
    IsLines lines' := by
  induction h with
  | nil => trivial
  | cons hline h ih =>
    refine ⟨hl.1.imp hline.1 fun hlast => ⟨hline.2 hlast.1, ?_⟩, ih hl.2⟩
    obtain ⟨-, rfl⟩ := hlast
    cases h
    rfl
  | insert hline hnew _ ih => exact ⟨.inl hline, .inl hnew, ih hl.2⟩

/-- The lines of a text that ends in a newline are terminated. -/
theorem terminated_of_mem_split (h : ∃ before, text = before ++ ['\n'])
    (hline : line ∈ split text) : Terminated line := by
  obtain ⟨before, rfl⟩ := h
  have hlines := isLines_split (before ++ ['\n'])
  obtain ⟨l, l', hsplit⟩ := append_of_mem hline
  rw [hsplit, isLines_append] at hlines
  refine hlines.2.1.1.resolve_right fun hlast => ?_
  have hflat := flatten_split (before ++ ['\n'])
  rw [hsplit, hlast.2, flatten_append, flatten_cons, flatten_nil,
    append_nil] at hflat
  -- The newline at the end of the text would be within the last line.
  obtain ⟨hne, hno⟩ := hlast.1
  have hend := congrArg List.getLast? hflat
  rw [getLast?_append_of_ne_nil _ hne, getLast?_concat] at hend
  exact hno (mem_of_getLast? hend)

end Lines
