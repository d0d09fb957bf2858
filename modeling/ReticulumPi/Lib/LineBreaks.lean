import ReticulumPi.Lib.PyStr

/-!
# Python's `splitlines`

The lines of a text as `str.splitlines` has them, which ends them at any of
Python's line boundaries. A text without carriage returns is cut after each
boundary character (`isLines_splitlines`), and lines cut so are the lines of
the text that they make up (`splitlines_flatten`).
-/

namespace PyStr

open List

/-- The characters that end a line. -/
def isBreak (c : Char) : Bool :=
  (0x0a ≤ c.toNat && c.toNat ≤ 0x0d) || (0x1c ≤ c.toNat && c.toNat ≤ 0x1e) || c.toNat = 0x85 ||
    c.toNat = 0x2028 || c.toNat = 0x2029

/-- A character before the lines of the rest of the text. -/
def prepend (c : Char) : List (List Char) → List (List Char)
  | [] => [[c]]
  | line :: lines => (c :: line) :: lines

/-- `str.splitlines(keepends=True)`: a carriage return goes with the newline after it. -/
def splitlines : List Char → List (List Char)
  | [] => []
  | c :: text =>
    if isBreak c = true ∧ ¬ (c = '\r' ∧ text.head? = some '\n') then [c] :: splitlines text
    else prepend c (splitlines text)

/-- The line as `str.splitlines()` has it, without what ends it. -/
def chomp (line : List Char) : List Char := line.rdropWhile isBreak

/-- A line and the character that ends it, if any: the last line may go without. -/
structure IsLine (line : List Char) (ended : Bool) : Prop where
  split : ∃ body ending, line = body ++ ending ∧ (∀ c ∈ body, isBreak c = false) ∧
    if ended then ∃ c, ending = [c] ∧ isBreak c = true ∧ c ≠ '\r' else ending = [] ∧ body ≠ []

/-- The lines of a text without carriage returns. -/
def IsLines : List (List Char) → Prop
  | [] => True
  | line :: lines => (IsLine line true ∨ IsLine line false ∧ lines = []) ∧ IsLines lines

variable {c : Char} {text line body : List Char} {lines : List (List Char)} {ended : Bool}

theorem isSpace_of_isBreak (h : isBreak c = true) : isSpace c = true := by
  simp only [isBreak, isSpace, Bool.or_eq_true, Bool.and_eq_true, decide_eq_true_eq] at h ⊢
  omega

theorem flatten_prepend (c : Char) (lines : List (List Char)) :
    (prepend c lines).flatten = c :: lines.flatten := by
  cases lines <;> rfl

theorem flatten_splitlines (text : List Char) : (splitlines text).flatten = text := by
  induction text with
  | nil => rfl
  | cons c text ih =>
    rw [splitlines]
    split_ifs
    · rw [flatten_cons, ih]
      rfl
    · rw [flatten_prepend, ih]

theorem IsLine.cons (h : IsLine line ended) (hc : isBreak c = false) : IsLine (c :: line) ended := by
  obtain ⟨body, ending, rfl, hbody, hend⟩ := h.split
  refine ⟨c :: body, ending, rfl, fun d hd => ?_, ?_⟩
  · rcases mem_cons.1 hd with rfl | hd
    · exact hc
    · exact hbody d hd
  · cases ended
    · exact ⟨hend.1, cons_ne_nil _ _⟩
    · exact hend

theorem isLines_splitlines (h : '\r' ∉ text) : IsLines (splitlines text) := by
  induction text with
  | nil => trivial
  | cons c text ih =>
    obtain ⟨hne, htext⟩ := not_or.1 (mt mem_cons.2 h)
    rw [splitlines]
    by_cases hc : isBreak c = true
    · rw [if_pos ⟨hc, fun hr => hne hr.1.symm⟩]
      exact ⟨.inl ⟨[], [c], rfl, fun d hd => (nomatch hd), c, rfl, hc, Ne.symm hne⟩, ih htext⟩
    · rw [if_neg fun hr => hc hr.1]
      have hc : isBreak c = false := by simpa using hc
      rcases hlines : splitlines text with _ | ⟨line, lines⟩
      · exact ⟨.inr ⟨⟨[c], [], rfl, by simpa using hc, rfl, cons_ne_nil _ _⟩, rfl⟩, trivial⟩
      · have := ih htext
        rw [hlines] at this
        exact ⟨this.1.imp (·.cons hc) fun hl => ⟨hl.1.cons hc, hl.2⟩, this.2⟩

theorem splitlines_append (hbody : ∀ c ∈ body, isBreak c = false) (hc : isBreak c = true)
    (hr : c ≠ '\r') (text : List Char) :
    splitlines (body ++ c :: text) = (body ++ [c]) :: splitlines text := by
  induction body with
  | nil =>
    rw [nil_append, splitlines, if_pos ⟨hc, fun h => hr h.1⟩]
    rfl
  | cons d body ih =>
    have hd := hbody d mem_cons_self
    rw [cons_append, splitlines, if_neg (by simp [hd]),
      ih fun c hc => hbody c (mem_cons_of_mem _ hc)]
    rfl

theorem splitlines_of_unbroken (hbody : ∀ c ∈ body, isBreak c = false) (hne : body ≠ []) :
    splitlines body = [body] := by
  induction body with
  | nil => exact absurd rfl hne
  | cons d body ih =>
    have hd := hbody d mem_cons_self
    rw [splitlines, if_neg (by simp [hd])]
    by_cases hnil : body = []
    · rw [hnil]
      rfl
    · rw [ih (fun c hc => hbody c (mem_cons_of_mem _ hc)) hnil]
      rfl

theorem splitlines_flatten (h : IsLines lines) : splitlines lines.flatten = lines := by
  induction lines with
  | nil => rfl
  | cons line lines ih =>
    obtain ⟨hline, hlines⟩ := h
    rcases hline with hline | ⟨hline, rfl⟩
    · obtain ⟨body, _, rfl, hbody, c, rfl, hc, hr⟩ := hline.split
      rw [flatten_cons, append_assoc, singleton_append,
        splitlines_append hbody hc hr, ih hlines]
    · obtain ⟨body, _, rfl, hbody, rfl, hne⟩ := hline.split
      rw [flatten_cons, flatten_nil, append_nil, append_nil,
        splitlines_of_unbroken hbody hne]

theorem IsLines.isLine_of_mem (h : IsLines lines) (hline : line ∈ lines) :
    ∃ ended, IsLine line ended := by
  induction lines with
  | nil => cases hline
  | cons line' lines ih =>
    rcases mem_cons.1 hline with rfl | hline
    · exact h.1.elim (fun h => ⟨true, h⟩) fun h => ⟨false, h.1⟩
    · exact ih h.2 hline

theorem chomp_of_unbroken (hbody : ∀ c ∈ body, isBreak c = false) : chomp body = body := by
  rcases eq_nil_or_concat' body with rfl | ⟨body, d, rfl⟩
  · rfl
  · exact rdropWhile_concat_neg _ _ _ (by simp [hbody d (by simp)])

theorem chomp_append_of_isBreak (hbody : ∀ c ∈ body, isBreak c = false) (hc : isBreak c = true) :
    chomp (body ++ [c]) = body := by
  rw [chomp, rdropWhile_concat_pos _ _ _ hc]
  exact chomp_of_unbroken hbody

/-! ## Endings -/

/-- What ends the line. -/
def ending (line : List Char) : List Char := line.rtakeWhile isBreak

theorem chomp_append_ending (line : List Char) : chomp line ++ ending line = line :=
  rdropWhile_append_rtakeWhile

theorem isBreak_of_mem_ending (hc : c ∈ ending line) : isBreak c = true := by
  rw [ending, List.rtakeWhile, mem_reverse] at hc
  exact mem_takeWhile_imp hc

/-- The endings of a line are what comes after it. -/
theorem chomp_append {s e : List Char} (hs : ∀ c ∈ s, isBreak c = false)
    (he : ∀ c ∈ e, isBreak c = true) : chomp (s ++ e) = s ∧ ending (s ++ e) = e := by
  have hchomp : chomp (s ++ e) = s := by
    induction e using List.reverseRecOn with
    | nil => rw [append_nil, chomp_of_unbroken hs]
    | append_singleton e c ih =>
      rw [← append_assoc, chomp, rdropWhile_concat_pos _ _ _
        (he c (mem_append_right _ (mem_singleton_self c)))]
      exact ih fun d hd => he d (mem_append_left _ hd)
  refine ⟨hchomp, ?_⟩
  have h := chomp_append_ending (s ++ e)
  rw [hchomp] at h
  exact append_cancel_left h

/-! ## Lines of a text -/

theorem chomp_cons (hc : isBreak c = false) (line : List Char) :
    chomp (c :: line) = c :: chomp line := by
  rw [chomp, chomp, List.rdropWhile, List.rdropWhile, reverse_cons, dropWhile_append]
  split_ifs with hnil
  · rw [List.isEmpty_iff.1 hnil, dropWhile_cons_of_neg (by simp [hc])]
    rfl
  · rw [reverse_append]
    rfl

theorem chomp_eq_nil (h : ∀ c ∈ line, isBreak c = true) : chomp line = [] :=
  rdropWhile_eq_nil_iff.2 h

/-- Lines that are the same without their endings, and end alike, are the same. -/
theorem eq_of_chomp_eq {line' : List Char} (h : chomp line = chomp line')
    (hend : ending line = ending line') : line = line' := by
  rw [← chomp_append_ending line, ← chomp_append_ending line', h, hend]

/-- A character that ends no line begins the first one. -/
theorem map_chomp_prepend (hc : isBreak c = false) (lines : List (List Char)) :
    (prepend c lines).map chomp = prepend c (lines.map chomp) := by
  rcases lines with _ | ⟨line, lines⟩
  · exact congrArg (fun l => [l]) (chomp_cons hc [])
  · exact congrArg (· :: lines.map chomp) (chomp_cons hc line)

theorem splitlines_cons (hc : isBreak c = false) (text : List Char) :
    splitlines (c :: text) = prepend c (splitlines text) := by
  rw [splitlines, if_neg fun h => by rw [hc] at h; cases h.1]

theorem splitlines_cons_of_isBreak (hc : isBreak c = true) (hr : c ≠ '\r') (text : List Char) :
    splitlines (c :: text) = [c] :: splitlines text := by
  rw [splitlines, if_pos ⟨hc, fun h => hr h.1⟩]

theorem splitlines_return (h : text.head? ≠ some '\n') :
    splitlines ('\r' :: text) = ['\r'] :: splitlines text := by
  rw [splitlines, if_pos ⟨by decide, fun hr => h hr.2⟩]

theorem splitlines_return_newline (text : List Char) :
    splitlines ('\r' :: '\n' :: text) = ['\r', '\n'] :: splitlines text := by
  rw [splitlines, if_neg fun h => h.2 ⟨rfl, rfl⟩, splitlines_cons_of_isBreak (by decide) (by decide)]
  rfl

/-- A text ends, or goes on with a character that ends no line, or with what ends one. -/
theorem text_induction {P : List Char → Prop} (nil : P [])
    (keep : ∀ c text, isBreak c = false → P text → P (c :: text))
    (stop : ∀ c text, isBreak c = true → c ≠ '\r' → P text → P (c :: text))
    (lone : ∀ text, text.head? ≠ some '\n' → P text → P ('\r' :: text))
    (both : ∀ text, P text → P ('\r' :: '\n' :: text)) (text : List Char) : P text := by
  induction hn : text.length using Nat.strong_induction_on generalizing text with
  | _ n ih =>
    subst hn
    rcases text with _ | ⟨c, text⟩
    · exact nil
    · have hrest := ih text.length (Nat.lt_succ_self _) text rfl
      rcases hc : isBreak c with _ | _
      · exact keep c text hc hrest
      · by_cases hr : c = '\r'
        · subst hr
          by_cases hhead : text.head? = some '\n'
          · obtain ⟨d, text, rfl⟩ := exists_cons_of_ne_nil (l := text) (by rintro rfl; cases hhead)
            cases hhead
            exact both text (ih text.length (by simp) text rfl)
          · exact lone text hhead hrest
        · exact stop c text hc hr hrest

/-- A text without all that ends its lines. -/
theorem filter_isBreak (text : List Char) :
    text.filter (fun c => !isBreak c) = ((splitlines text).map chomp).flatten := by
  refine text_induction (P := fun text =>
    text.filter (fun c => !isBreak c) = ((splitlines text).map chomp).flatten)
    rfl (fun c text hc ih => ?_) (fun c text hc hr ih => ?_) (fun text hhead ih => ?_)
    (fun text ih => ?_) text
  · rw [splitlines_cons hc, map_chomp_prepend hc, flatten_prepend, ← ih,
      filter_cons_of_pos (by simp [hc])]
  · rw [splitlines_cons_of_isBreak hc hr, map_cons, flatten_cons, ← ih,
      chomp_eq_nil (by simp [hc]), filter_cons_of_neg (by simp [hc])]
    rfl
  · rw [splitlines_return hhead, map_cons, flatten_cons, ← ih]
    rfl
  · rw [splitlines_return_newline, map_cons, flatten_cons, ← ih]
    rfl

/-- Lines without their endings have no character that ends a line. -/
theorem isBreak_of_mem_chomp (hline : line ∈ splitlines text) (hc : c ∈ chomp line) :
    isBreak c = false := by
  have hmem : c ∈ ((splitlines text).map chomp).flatten :=
    mem_flatten.2 ⟨_, List.mem_map_of_mem hline, hc⟩
  rw [← filter_isBreak] at hmem
  simpa using (mem_filter.1 hmem).2

end PyStr
