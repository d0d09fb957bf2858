import ReticulumPi.Rns.Edits

/-!
# Toggling interfaces

Entries are set one after the other, by the line numbers of the one list that was
parsed. A line that is inserted moves all that come after it. So an edit finds its
lines as long as no line has been inserted above them (`InOrder`); the file
that is then written lists the same interfaces, with the flags that were
chosen, and none of its other lines has changed, unless a line was to be inserted
under the last line of a file that does not end in a newline (`toggles_iff`).
-/

namespace ReticulumPi.Rns

open List

variable {text : Text}

/-! ## One edit -/

theorem modify_append_cons {α : Type*} (f : α → α) (before : List α) (a : α) (after : List α) :
    (before ++ a :: after).modify before.length f = before ++ f a :: after := by
  induction before with
  | nil => rfl
  | cons b before ih => rw [cons_append, length_cons, modify_succ_cons, ih]; rfl

theorem insertIdx_append_cons {α : Type*} (x : α) (before : List α) (a : α) (after : List α) :
    (before ++ a :: after).insertIdx (before.length + 1) x = before ++ a :: x :: after := by
  induction before with
  | nil => rfl
  | cons b before ih => rw [cons_append, length_cons, insertIdx_succ_cons, ih]; rfl

theorem foldl_modify_flagLines (text : Text) (enabled : Bool) (before lines after : List (List Char)) :
    (text.flagLines before.length lines).foldl (fun lines lineNumber =>
        lines.modify lineNumber fun line => replacePropertyValue line (flagValue enabled))
        (before ++ (lines ++ after)) =
      before ++ (lines.map (text.setFlag enabled) ++ after) := by
  induction lines generalizing before with
  | nil => rfl
  | cons raw lines ih =>
    have hih := ih (before ++ [text.setFlag enabled raw])
    rw [length_append, length_singleton, append_assoc, append_assoc] at hih
    rw [Text.flagLines, map_cons]
    rcases hraw : text.isFlag raw with _ | _
    · rw [Text.setFlag, hraw] at hih ⊢
      exact hih
    · rw [Text.setFlag, hraw] at hih ⊢
      rw [if_pos rfl, foldl_cons, cons_append, modify_append_cons]
      exact hih

variable {lines : List (List Char)}

theorem lt_of_mem_flagLines {idx n : ℕ}
    (h : n ∈ text.flagLines idx lines) : idx ≤ n ∧ n < idx + lines.length := by
  induction lines generalizing idx with
  | nil => cases h
  | cons raw lines ih =>
    rw [length_cons]
    have hih : n ∈ text.flagLines (idx + 1) lines → idx ≤ n ∧ n < idx + (lines.length + 1) := by
      intro h
      obtain ⟨hle, hlt⟩ := ih h
      omega
    rw [Text.flagLines] at h
    split_ifs at h
    · rcases mem_cons.1 h with rfl | h
      · omega
      · exact hih h
    · exact hih h

variable (idx : ℕ)

theorem nodup_flagLines (lines : List (List Char)) : (text.flagLines idx lines).Nodup := by
  induction lines generalizing idx with
  | nil => exact nodup_nil
  | cons raw lines ih =>
    rw [Text.flagLines]
    split_ifs
    · refine nodup_cons.2 ⟨fun h => ?_, ih _⟩
      have := (lt_of_mem_flagLines h).1
      omega
    · exact ih _

/-- The indent of a line that is inserted is white space, of lines without a newline
    in it. -/
theorem detectIndent_spec (text : Text) (lines : List (List Char)) (afterLine : ℕ) :
    (∀ c ∈ text.detectIndent lines afterLine, PyStr.isSpace c = true) ∧
      (Lines.IsLines lines → '\n' ∉ text.detectIndent lines afterLine) := by
  rw [Text.detectIndent]
  split
  · next line hfind =>
    refine ⟨fun c hc => mem_takeWhile_imp hc, fun hlines hmem => ?_⟩
    have hline : line ∈ lines :=
      (drop_suffix _ _).subset ((List.takeWhile_prefix _).subset ((List.take_prefix _ _).subset
        ((List.takeWhile_prefix _).subset (mem_of_find?_eq_some hfind))))
    have hkv := find?_some (p := fun line => (text.keyValue line).isSome) hfind
    have hnewline : '\n' ∈ line := (List.takeWhile_prefix _).subset hmem
    obtain ⟨before, hno, hbefore⟩ := (hlines.of_mem hline).resolve_right fun h => h.2 hnewline
    -- The newline is the last character, so that the line would be white space.
    have hstrip : PyStr.lstrip line = [] := by
      by_contra hne
      have hsplit := takeWhile_append_dropWhile (p := PyStr.isSpace) (l := line)
      obtain ⟨init, c, hlast⟩ := (eq_nil_or_concat' (PyStr.lstrip line)).resolve_left hne
      rw [PyStr.lstrip] at hlast
      rw [hlast, hbefore, ← append_assoc] at hsplit
      rw [hbefore] at hmem
      refine hno ((append_inj' hsplit rfl).1 ▸ mem_append_left _ hmem)
    rw [Text.keyValue, hstrip] at hkv
    cases hkv
  · refine ⟨List.all_eq_true.1 (show "    ".toList.all PyStr.isSpace = true by decide), fun _ => ?_⟩
    decide

/-- Setting the flag of the interface of a block edits the block. -/
theorem setInterfaceEnabled_block (text : Text) (block : Block) (before after : List (List Char))
    (enabled : Bool) :
    ∃ block', block.Edited text (some enabled) block' ∧
      setInterfaceEnabled text (before ++ (block.lines ++ after))
          (block.entry text before.length) enabled = before ++ (block'.lines ++ after) ∧
        (Lines.IsLines (before ++ (block.lines ++ after)) →
          (¬ block.HasFlag text → '\n' ∈ block.head) →
            Lines.IsLines (before ++ (block'.lines ++ after))) := by
  have hassoc : ∀ direct : List (List Char), before ++
      (({ block with direct := direct } : Block).lines ++ after) =
        (before ++ [block.head]) ++ (direct ++ (block.nested ++ block.rest ++ after)) := by
    intro direct
    rw [Block.lines]
    simp only [append_assoc, cons_append, nil_append]
  have hlines : before ++ (block.lines ++ after) =
      (before ++ [block.head]) ++ (block.direct ++ (block.nested ++ block.rest ++ after)) :=
    hassoc block.direct
  by_cases hflag : block.HasFlag text
  · refine ⟨_, .replaced enabled hflag, ?_, fun hl _ => ?_⟩
    · have hne := mt (block.entry_enabledLines_eq_nil_iff before.length).1 (not_not.2 hflag)
      have hdedup : (block.entry text before.length).enabledLines.reverse.dedup.reverse =
          (block.entry text before.length).enabledLines := by
        have hnodup : (block.entry text before.length).enabledLines.reverse.Nodup := by
          rw [nodup_reverse, Block.entry_enabledLines]
          exact nodup_flagLines _ _
        rw [hnodup.dedup, reverse_reverse]
      have hif : ∀ l : List ℕ, (if (block.entry text before.length).enabledLines = [] ∧
          0 ≤ (block.entry text before.length).enabledLine then l
            else (block.entry text before.length).enabledLines) =
          (block.entry text before.length).enabledLines := fun l => if_neg fun h => hne h.1
      rw [setInterfaceEnabled, hdedup, hif, if_pos hne, Block.entry_enabledLines]
      have hfold := foldl_modify_flagLines text enabled (before ++ [block.head])
        block.direct (block.nested ++ block.rest ++ after)
      rw [length_append, length_singleton, ← hlines] at hfold
      exact hfold.trans (hassoc _).symm
    · refine Lines.Edited.isLines ?_ hl
      rw [hlines, hassoc]
      exact (Lines.Edited.refl _).append
        ((Lines.Edited.map fun line _ => like_setFlag enabled line).append (Lines.Edited.refl _))
  · have hnil := (block.entry_enabledLines_eq_nil_iff before.length).2 hflag
    obtain ⟨hspace, hnewline⟩ := detectIndent_spec text
      (before ++ (block.lines ++ after)) before.length
    refine ⟨_, .inserted enabled _ hflag hspace, ?_, fun hl hhead => ?_⟩
    · have hneg := Block.entry_enabledLine hnil
      have hif : ∀ l : List ℕ, (if ([] : List ℕ).reverse.dedup.reverse = [] ∧
          0 ≤ (block.entry text before.length).enabledLine then l
            else ([] : List ℕ).reverse.dedup.reverse) = [] := fun l =>
        if_neg fun h => absurd h.2 (not_le.2 hneg)
      rw [setInterfaceEnabled, hnil, hif, if_neg (not_not.2 rfl),
        Block.entry_startLine, Block.lines, cons_append, insertIdx_append_cons]
      rfl
    · have hterm : Lines.Terminated block.head :=
        (hl.of_mem (mem_append_right _ (mem_append_left _ mem_cons_self)))
          |>.resolve_right fun h => h.2 (hhead hflag)
      have hnew : Lines.Terminated
          (flagLine (text.detectIndent (before ++ (block.lines ++ after)) before.length) enabled) := by
        refine ⟨text.detectIndent (before ++ (block.lines ++ after)) before.length ++
          ("enabled = ".toList ++ flagValue enabled), ?_, ?_⟩
        · refine fun hmem => (mem_append.1 hmem).elim (hnewline hl) ?_
          rcases enabled with _ | _ <;> decide
        · rw [flagLine]
          simp only [append_assoc]
      refine Lines.Edited.isLines ?_ hl
      refine (Lines.Edited.refl _).append ?_
      exact .insert hterm hnew (Lines.Edited.refl _)

/-! ## All edits -/

/-- No entry comes, in the order of the edits, after one higher up in the file for which
    a line was inserted. -/
def InOrder (entries : List InterfaceEntry) (choices : Choices) : Prop :=
  choices.Pairwise fun c c' =>
    ∀ e ∈ entries[c.1]?, e.enabledLines = [] → c'.1 < c.1
deriving Decidable

/-- The lines under which one is inserted end in a newline. -/
def HeadsEnd (lines : List (List Char)) (entries : List InterfaceEntry) (choices : Choices) : Prop :=
  ∀ c ∈ choices, ∀ e ∈ entries[c.1]?, e.enabledLines = [] →
    ∃ line ∈ lines[e.startLine]?, '\n' ∈ line
deriving Decidable

/-- The lines before a block. -/
def linesBefore (before : List (List Char)) (blocks : List Block) (k : ℕ) : List (List Char) :=
  before ++ (blocks.take k).flatMap Block.lines

variable {before : List (List Char)} {blocks blocks' : List Block} {choices : Choices}

theorem getElem?_entries (blocks : List Block) (k : ℕ) :
    (entries text idx blocks)[k]? = blocks[k]?.map fun block =>
      block.entry text (idx + ((blocks.take k).flatMap Block.lines).length) := by
  induction blocks generalizing idx k with
  | nil => simp [entries]
  | cons block blocks ih =>
    rw [entries]
    rcases k with _ | k
    · rfl
    · rw [getElem?_cons_succ, getElem?_cons_succ, ih, take_succ_cons,
        flatMap_cons, length_append, Nat.add_assoc]

variable {k : ℕ} {block : Block}

/-- The lines of a document, around one of its blocks. -/
theorem document_lines_eq (hblock : blocks[k]? = some block) :
    (⟨before, blocks⟩ : Document).lines = linesBefore before blocks k ++
      (block.lines ++ (blocks.drop (k + 1)).flatMap Block.lines) := by
  obtain ⟨hk, hget⟩ := List.getElem?_eq_some_iff.1 hblock
  have hsplit : blocks = blocks.take k ++ block :: blocks.drop (k + 1) := by
    rw [← hget, getElem_cons_drop, take_append_drop]
  have hlines := congrArg (List.flatMap Block.lines) hsplit
  rw [flatMap_append, flatMap_cons] at hlines
  rw [Document.lines, linesBefore, append_assoc]
  exact congrArg (before ++ ·) hlines

theorem document_lines_set (hk : k < blocks.length) (block : Block) :
    (⟨before, blocks.set k block⟩ : Document).lines = linesBefore before blocks k ++
      (block.lines ++ (blocks.drop (k + 1)).flatMap Block.lines) := by
  rw [Document.lines, linesBefore, set_eq_take_append_cons_drop, if_pos hk,
    flatMap_append, flatMap_cons, append_assoc]

/-- What the edits have made of the blocks of a document. -/
structure EditedAll (text : Text) (choices : Choices) (blocks blocks' : List Block) : Prop where
  length : blocks'.length = blocks.length
  edited : ∀ (k : ℕ) (block block' : Block), blocks[k]? = some block → blocks'[k]? = some block' →
    block.Edited text (choices.desired k) block'

theorem Block.Edited.length_lines {block' : Block} {desired : Option Bool}
    (h : block.Edited text desired block') (hflag : desired.isSome → block.HasFlag text) :
    block'.lines.length = block.lines.length := by
  cases h with
  | unchosen => rfl
  | replaced enabled _ =>
    rw [Block.lines, Block.lines]
    simp
  | inserted enabled indent hno _ => exact absurd (hflag rfl) hno

/-- Above the entries for which lines were inserted, no line has moved. -/
theorem EditedAll.length_linesBefore (h : EditedAll text choices blocks blocks')
    (hflag : ∀ j < k, ∀ block ∈ blocks[j]?, (choices.desired j).isSome → block.HasFlag text) :
    (linesBefore before blocks' k).length = (linesBefore before blocks k).length := by
  have hmap : (blocks'.take k).map (fun block => block.lines.length) =
      (blocks.take k).map fun block => block.lines.length := by
    refine ext_getElem (by simp [h.length]) fun j hj hj' => ?_
    rw [getElem_map, getElem_map, getElem_take, getElem_take]
    rw [length_map, length_take] at hj hj'
    have hget : blocks[j]? = some blocks[j] := getElem?_eq_getElem (by omega)
    have hget' : blocks'[j]? = some blocks'[j] := getElem?_eq_getElem (by omega)
    exact (h.edited j _ _ hget hget').length_lines (hflag j (by omega) _ hget)
  rw [linesBefore, linesBefore, length_append, length_append, length_flatMap,
    length_flatMap, hmap]

theorem Block.Edited.eq_of_none {block' : Block} (h : block.Edited text none block') :
    block' = block := by
  cases h
  rfl

variable {enabled : Bool}

theorem mem_of_desired_eq_some (h : choices.desired k = some enabled) : (k, enabled) ∈ choices := by
  rw [Choices.desired, lookup_eq_some_iff] at h
  obtain ⟨l, l', rfl, -⟩ := h
  exact mem_append_right _ mem_cons_self

theorem desired_of_mem (hnodup : (choices.map Prod.fst).Nodup)
    (h : (k, enabled) ∈ choices) : choices.desired k = some enabled := by
  obtain ⟨l, l', rfl⟩ := append_of_mem h
  refine lookup_eq_some_iff.2 ⟨l, l', rfl, fun c hc => ?_⟩
  rw [map_append, nodup_append] at hnodup
  rw [bne_iff_ne]
  exact (hnodup.2.2 c.1 (List.mem_map_of_mem hc) k mem_cons_self).symm

theorem desired_eq_none (h : k ∉ choices.map Prod.fst) : choices.desired k = none := by
  rw [Choices.desired, lookup_eq_none_iff]
  intro c hc
  rw [bne_iff_ne]
  rintro rfl
  exact h (List.mem_map_of_mem hc)

theorem desired_append (h : k ∉ choices.map Prod.fst) (j : ℕ) :
    Choices.desired (choices ++ [(k, enabled)]) j =
      if j = k then some enabled else choices.desired j := by
  have hnone := desired_eq_none h
  rw [Choices.desired] at hnone ⊢
  rw [lookup_append]
  split_ifs with hj
  · rw [hj, hnone, lookup_cons, beq_self_eq_true]
    rfl
  · rw [lookup_cons, beq_eq_false_iff_ne.2 hj]
    exact Option.or_none

/-- Edits in order edit the blocks of the entries that are chosen. -/
theorem setAll_document (before : List (List Char)) (hnodup : (choices.map Prod.fst).Nodup)
    (horder : InOrder (entries text before.length blocks) choices)
    (hchosen : ∀ c ∈ choices, c.1 < blocks.length) :
    ∃ blocks', EditedAll text choices blocks blocks' ∧
      setAll text (⟨before, blocks⟩ : Document).lines (entries text before.length blocks) choices =
        (⟨before, blocks'⟩ : Document).lines ∧
      (Lines.IsLines (⟨before, blocks⟩ : Document).lines →
        HeadsEnd (⟨before, blocks⟩ : Document).lines (entries text before.length blocks) choices →
          Lines.IsLines (⟨before, blocks'⟩ : Document).lines) := by
  induction choices using List.reverseRecOn with
  | nil =>
    refine ⟨blocks, ⟨rfl, fun k block block' h h' => ?_⟩, rfl, fun h _ => h⟩
    cases h.symm.trans h'
    exact .unchosen
  | append_singleton choices c ih =>
    obtain ⟨k, enabled⟩ := c
    rw [map_append, nodup_append] at hnodup
    obtain ⟨hpairs, -, hlast⟩ := pairwise_append.1 horder
    have hk : k < blocks.length := hchosen (k, enabled) (by simp)
    have hfresh : k ∉ choices.map Prod.fst := fun h =>
      hnodup.2.2 k h k (mem_singleton_self k) rfl
    obtain ⟨blocks', hall, hlines, hisLines⟩ := ih hnodup.1 hpairs fun c hc =>
      hchosen c (mem_append_left _ hc)
    have hk' : k < blocks'.length := hall.length ▸ hk
    have hblock : blocks[k]? = some blocks[k] := getElem?_eq_getElem hk
    have hblock' : blocks'[k]? = some blocks'[k] := getElem?_eq_getElem hk'
    -- The block has not been edited, nor has any line above it moved.
    have hsame : blocks'[k] = blocks[k] := by
      have hedited := hall.edited k _ _ hblock hblock'
      rw [desired_eq_none hfresh] at hedited
      exact hedited.eq_of_none
    have hlength : (linesBefore before blocks' k).length = (linesBefore before blocks k).length := by
      refine hall.length_linesBefore fun j hj block hget hsome => ?_
      obtain ⟨e, he⟩ := Option.isSome_iff_exists.1 hsome
      by_contra hno
      have hmem : (j, e) ∈ choices := mem_of_desired_eq_some he
      have hentry : (entries text before.length blocks)[j]? = some (block.entry text
          (before.length + ((blocks.take j).flatMap Block.lines).length)) := by
        rw [getElem?_entries, hget]
        rfl
      have hlt := hlast (j, e) hmem (k, enabled) (mem_singleton_self _) _ hentry
        ((block.entry_enabledLines_eq_nil_iff _).2 hno)
      exact absurd hlt (not_lt.2 hj.le)
    obtain ⟨block', hedited, hset, hkeeps⟩ := setInterfaceEnabled_block text blocks[k]
      (linesBefore before blocks' k) ((blocks'.drop (k + 1)).flatMap Block.lines) enabled
    refine ⟨blocks'.set k block', ⟨by rw [length_set, hall.length], ?_⟩, ?_, ?_⟩
    · intro j b b' hb hb'
      rw [desired_append hfresh]
      by_cases hj : j = k
      · subst hj
        rw [getElem?_set_self hk'] at hb'
        cases hb'
        cases hblock.symm.trans hb
        rw [if_pos rfl]
        exact hedited
      · rw [getElem?_set_ne (Ne.symm hj)] at hb'
        rw [if_neg hj]
        exact hall.edited j b b' hb hb'
    · have hentry : (entries text before.length blocks)[k]? =
          some (blocks[k].entry text (linesBefore before blocks' k).length) := by
        rw [getElem?_entries, hblock, hlength, linesBefore, length_append]
        rfl
      rw [setAll] at hlines
      rw [setAll, foldl_append, hlines, foldl_cons, foldl_nil]
      dsimp only
      rw [hentry, document_lines_eq hblock', hsame, document_lines_set hk']
      exact hset
    · intro hl hheads
      have hl' := hisLines hl fun c hc => hheads c (mem_append_left _ hc)
      rw [document_lines_eq hblock', hsame] at hl'
      rw [document_lines_set hk']
      refine hkeeps hl' fun hno => ?_
      have hentry : (entries text before.length blocks)[k]? =
          some (blocks[k].entry text (linesBefore before blocks k).length) := by
        rw [getElem?_entries, hblock, linesBefore, length_append]
        rfl
      obtain ⟨line, hline, hnewline⟩ := hheads (k, enabled) (by simp) _ hentry
        ((Block.entry_enabledLines_eq_nil_iff _ _).2 hno)
      rw [Block.entry_startLine, document_lines_eq hblock, Block.lines, cons_append,
        getElem?_append_right le_rfl, Nat.sub_self] at hline
      cases hline
      exact hnewline

/-! ## What is kept -/

theorem EditedAll.document_valid (hplain : text.Plain) (h : EditedAll text choices blocks blocks')
    {inInterfaces : Bool} (hblocks : Blocks text inInterfaces blocks) :
    Blocks text inInterfaces blocks' := by
  have hall : ∀ (k : ℕ) (block block' : Block), blocks[k]? = some block → blocks'[k]? = some block' →
      ∃ desired, block.Edited text desired block' := fun k block block' hb hb' =>
    ⟨_, h.edited k block block' hb hb'⟩
  have hlength := h.length
  clear h
  induction blocks generalizing blocks' inInterfaces with
  | nil =>
    rw [length_eq_zero_iff.1 hlength]
    trivial
  | cons block blocks ih =>
    rcases blocks' with _ | ⟨block', blocks'⟩
    · cases hlength
    · obtain ⟨hin, hblock, inInterfaces', hout, hblocks⟩ := hblocks
      obtain ⟨desired, hedited⟩ := hall 0 block block' rfl rfl
      refine ⟨hin, hedited.valid hplain hblock, inInterfaces', ?_, ?_⟩
      · rw [hedited.rest]
        exact hout
      · exact ih hblocks (fun k => hall (k + 1)) (Nat.succ.inj hlength)

/-- The lines with a number, but for some numbers. -/
def remaining (lines : List (List Char)) (numbers : List ℕ) : List (List Char) :=
  ((lines.zipIdx idx).filter fun line => line.2 ∉ numbers).map Prod.fst

theorem remaining_append (lines lines' : List (List Char)) (numbers : List ℕ) :
    remaining idx (lines ++ lines') numbers =
      remaining idx lines numbers ++ remaining (idx + lines.length) lines' numbers := by
  rw [remaining, zipIdx_append, filter_append, map_append]
  rfl

theorem remaining_congr {idx : ℕ} {numbers numbers' : List ℕ}
    (h : ∀ n, idx ≤ n → n < idx + lines.length → (n ∈ numbers ↔ n ∈ numbers')) :
    remaining idx lines numbers = remaining idx lines numbers' := by
  rw [remaining, remaining]
  congr 1
  refine filter_congr fun line hline => ?_
  obtain ⟨hle, hlt, -⟩ := mem_zipIdx hline
  rw [decide_eq_decide, h line.2 hle hlt]

theorem remaining_nil (lines : List (List Char)) : remaining idx lines [] = lines := by
  rw [remaining]
  simp

theorem remaining_flagLines (lines : List (List Char)) :
    remaining idx lines (text.flagLines idx lines) =
      lines.filter fun line => ! text.isFlag line := by
  induction lines generalizing idx with
  | nil => rfl
  | cons raw lines ih =>
    have hcons := remaining_append idx [raw] lines (text.flagLines idx (raw :: lines))
    rw [singleton_append, length_singleton] at hcons
    have htail : remaining (idx + 1) lines (text.flagLines idx (raw :: lines)) =
        remaining (idx + 1) lines (text.flagLines (idx + 1) lines) := by
      refine remaining_congr fun n hle _ => ?_
      rw [Text.flagLines]
      split_ifs
      · rw [mem_cons, or_iff_right (by omega)]
      · rfl
    rw [hcons, htail, ih, filter_cons, remaining, Text.flagLines]
    have hno : idx ∉ text.flagLines (idx + 1) lines := fun h => by
      have := (lt_of_mem_flagLines h).1
      omega
    rcases hraw : text.isFlag raw with _ | _
    · simp [hno]
    · simp

/-- The lines of a block that set no flag, or all of them. -/
theorem remaining_block (block : Block) (idx : ℕ) (chosen : Bool) :
    remaining idx block.lines (if chosen then (block.entry text idx).enabledLines else []) =
      block.keptLines text chosen := by
  rcases chosen with _ | _
  · exact remaining_nil _ _
  · rw [if_pos rfl, Block.keptLines, if_pos rfl, Block.entry_enabledLines, Block.lines]
    have hhead := remaining_append idx [block.head] (block.direct ++ (block.nested ++ block.rest))
      (text.flagLines (idx + 1) block.direct)
    rw [singleton_append, length_singleton] at hhead
    have hfirst : remaining idx [block.head] (text.flagLines (idx + 1) block.direct) =
        remaining idx [block.head] [] := by
      refine remaining_congr fun n _ hlt => iff_of_false (fun h => ?_) not_mem_nil
      have := (lt_of_mem_flagLines h).1
      rw [length_singleton] at hlt
      omega
    have hlast : remaining (idx + 1 + block.direct.length) (block.nested ++ block.rest)
        (text.flagLines (idx + 1) block.direct) =
          remaining (idx + 1 + block.direct.length) (block.nested ++ block.rest) [] := by
      refine remaining_congr fun n hle _ => iff_of_false (fun h => ?_) not_mem_nil
      have := (lt_of_mem_flagLines h).2
      omega
    rw [hhead, remaining_append, remaining_flagLines, hfirst, hlast, remaining_nil, remaining_nil]
    rfl

/-- The numbers of the lines of chosen entries, in a list that begins at a place. -/
def chosenFrom (choices : Choices) (k : ℕ) (entries : List InterfaceEntry) : List ℕ :=
  (entries.zipIdx k).flatMap fun e =>
    if (choices.desired e.2).isSome then e.1.enabledLines else []

/-- The lines of blocks but for those that set the flag of a chosen one. -/
def keptFrom (text : Text) (choices : Choices) (k : ℕ) (blocks : List Block) : List (List Char) :=
  (blocks.zipIdx k).flatMap fun block => block.1.keptLines text (choices.desired block.2).isSome

theorem le_of_mem_chosenFrom {idx n : ℕ}
    (h : n ∈ chosenFrom choices k (entries text idx blocks)) : idx ≤ n := by
  induction blocks generalizing k idx with
  | nil => cases h
  | cons block blocks ih =>
    rw [entries, chosenFrom, zipIdx_cons, flatMap_cons] at h
    rcases mem_append.1 h with h | h
    · split_ifs at h
      · rw [Block.entry_enabledLines] at h
        have := (lt_of_mem_flagLines h).1
        omega
      · cases h
    · have := ih h
      omega

theorem remaining_blocks (k idx : ℕ) (blocks : List Block) :
    remaining idx (blocks.flatMap Block.lines) (chosenFrom choices k (entries text idx blocks)) =
      keptFrom text choices k blocks := by
  induction blocks generalizing k idx with
  | nil => rfl
  | cons block blocks ih =>
    have hchosen : chosenFrom choices k (entries text idx (block :: blocks)) =
        (if (choices.desired k).isSome then (block.entry text idx).enabledLines else []) ++
          chosenFrom choices (k + 1) (entries text (idx + block.lines.length) blocks) := by
      rw [entries, chosenFrom, zipIdx_cons, flatMap_cons]
      rfl
    have hfirst : ∀ n ∈ (if (choices.desired k).isSome then (block.entry text idx).enabledLines
        else []), n < idx + block.lines.length := by
      intro n hn
      split_ifs at hn
      · rw [Block.entry_enabledLines] at hn
        have := (lt_of_mem_flagLines hn).2
        rw [Block.lines, length_cons, length_append]
        omega
      · cases hn
    have hblock : remaining idx block.lines (chosenFrom choices k
        (entries text idx (block :: blocks))) = remaining idx block.lines
          (if (choices.desired k).isSome then (block.entry text idx).enabledLines else []) := by
      refine remaining_congr fun n _ hlt => ?_
      rw [hchosen, mem_append]
      refine or_iff_left fun h => ?_
      have := le_of_mem_chosenFrom h
      omega
    have hrest : remaining (idx + block.lines.length) (blocks.flatMap Block.lines)
        (chosenFrom choices k (entries text idx (block :: blocks))) =
          remaining (idx + block.lines.length) (blocks.flatMap Block.lines)
            (chosenFrom choices (k + 1) (entries text (idx + block.lines.length) blocks)) := by
      refine remaining_congr fun n hle _ => ?_
      rw [hchosen, mem_append]
      refine or_iff_right fun h => ?_
      have := hfirst n h
      omega
    rw [flatMap_cons, remaining_append, hblock, hrest, ih, remaining_block, keptFrom,
      keptFrom, zipIdx_cons, flatMap_cons]

/-- The other lines of a document. -/
theorem otherLines_document (before : List (List Char)) (blocks : List Block) :
    otherLines (⟨before, blocks⟩ : Document).lines (entries text before.length blocks) choices =
      before ++ keptFrom text choices 0 blocks := by
  have hbefore : remaining 0 before (chosenFrom choices 0 (entries text before.length blocks)) =
      remaining 0 before [] := by
    refine remaining_congr fun n _ hlt => iff_of_false (fun h => ?_) not_mem_nil
    have := le_of_mem_chosenFrom h
    omega
  have happend := remaining_append 0 before (blocks.flatMap Block.lines)
    (chosenFrom choices 0 (entries text before.length blocks))
  rw [hbefore, remaining_nil, Nat.zero_add, remaining_blocks] at happend
  exact happend

theorem EditedAll.keptFrom (hplain : text.Plain) (h : EditedAll text choices blocks blocks') :
    keptFrom text choices 0 blocks' = keptFrom text choices 0 blocks := by
  have hall : ∀ (k : ℕ) (block block' : Block), blocks[k]? = some block →
      blocks'[k]? = some block' → block.Edited text (choices.desired (0 + k)) block' := by
    intro k block block' hb hb'
    rw [Nat.zero_add]
    exact h.edited k block block' hb hb'
  have hlength := h.length
  clear h
  generalize 0 = j at hall ⊢
  induction blocks generalizing blocks' j with
  | nil => rw [length_eq_zero_iff.1 hlength]
  | cons block blocks ih =>
    rcases blocks' with _ | ⟨block', blocks'⟩
    · cases hlength
    · have hih := ih (Nat.succ.inj hlength) (j + 1) fun k b b' hb hb' => by
        have hk := hall (k + 1) b b' hb hb'
        rwa [← Nat.add_assoc, Nat.add_right_comm] at hk
      have hblock := (hall 0 block block' rfl rfl).keptLines hplain
      rw [Nat.add_zero] at hblock
      rw [Rns.keptFrom, Rns.keptFrom] at hih
      rw [Rns.keptFrom, Rns.keptFrom, zipIdx_cons, zipIdx_cons, flatMap_cons,
        flatMap_cons, hih, hblock]

theorem otherLines_subset {es : List InterfaceEntry} {line : List Char}
    (h : line ∈ otherLines lines es choices) : line ∈ lines := by
  obtain ⟨numbered, hmem, rfl⟩ := List.mem_map.1 h
  exact fst_mem_of_mem_zipIdx (mem_of_mem_filter hmem)

theorem head_mem_keptFrom (hblock : blocks[k]? = some block) :
    block.head ∈ keptFrom text choices 0 blocks := by
  refine mem_flatMap.2 ⟨(block, k), mk_mem_zipIdx_iff_getElem?.2 hblock, ?_⟩
  rw [Block.keptLines]
  split_ifs
  all_goals exact mem_cons_self

theorem flatMap_lines_eq_nil_iff : blocks.flatMap Block.lines = [] ↔ blocks = [] := by
  refine ⟨fun h => ?_, fun h => by rw [h]; rfl⟩
  rcases blocks with _ | ⟨block, blocks⟩
  · rfl
  · cases h

/-- Where a line is inserted under the last one, which does not end in a newline, the file
    ends in the newline of what is inserted. -/
theorem EditedAll.ends_newline (h : EditedAll text choices blocks blocks')
    (hlines : Lines.IsLines (⟨before, blocks⟩ : Document).lines)
    (hblock : blocks[k]? = some block) (hchosen : choices.desired k = some enabled)
    (hflag : ¬ block.HasFlag text) (hhead : '\n' ∉ block.head) :
    ∃ start, (⟨before, blocks'⟩ : Document).lines.flatten = start ++ ['\n'] := by
  rw [document_lines_eq hblock, Lines.isLines_append, Block.lines] at hlines
  have hlast : block.direct ++ (block.nested ++ block.rest) ++
      (blocks.drop (k + 1)).flatMap Block.lines = [] :=
    (hlines.2.1.1.resolve_left fun hterm => hhead hterm.mem).2
  obtain ⟨hbody, hafter⟩ := append_eq_nil_iff.1 hlast
  obtain ⟨hdirect, hnested⟩ := append_eq_nil_iff.1 hbody
  obtain ⟨hk, -⟩ := List.getElem?_eq_some_iff.1 hblock
  have hk' : k < blocks'.length := h.length ▸ hk
  have hblock' : blocks'[k]? = some blocks'[k] := getElem?_eq_getElem hk'
  have hafter' : blocks'.drop (k + 1) = [] := by
    rw [flatMap_lines_eq_nil_iff, drop_eq_nil_iff] at hafter
    rw [drop_eq_nil_iff, h.length]
    exact hafter
  have hedited := h.edited k _ _ hblock hblock'
  rw [hchosen] at hedited
  rw [document_lines_eq hblock', hafter']
  generalize blocks'[k] = block' at hedited
  cases hedited with
  | replaced enabled hset => exact absurd hset hflag
  | inserted enabled indent hno hindent =>
    refine ⟨(linesBefore before blocks' k).flatten ++ (block.head ++ (indent ++
      ("enabled = ".toList ++ flagValue enabled))), ?_⟩
    rw [Block.lines]
    dsimp only
    rw [hdirect, hnested, flagLine]
    simp only [flatten_append, flatten_cons, flatten_nil, append_assoc,
      flatMap_nil, append_nil]

/-! ## The file that is written -/

/-- Edits in order toggle the interfaces that are chosen, and nothing else, if and only if
    the lines under which one is inserted end in a newline. -/
theorem toggles_iff (hplain : text.Plain) (file : List Char)
    (hnodup : (choices.map Prod.fst).Nodup)
    (hchosen : ∀ c ∈ choices, c.1 < (parseRnsConfig text (Lines.split file)).length)
    (horder : InOrder (parseRnsConfig text (Lines.split file)) choices) :
    Toggles text file choices (toggled text file choices) ↔
      HeadsEnd (Lines.split file) (parseRnsConfig text (Lines.split file)) choices := by
  obtain ⟨⟨before, blocks⟩, hdoc, hlines⟩ := exists_document text (Lines.split file)
  have hparse := parseRnsConfig_document hdoc
  have hisLines := Lines.isLines_split file
  rw [← hlines] at hisLines
  rw [← hlines, hparse] at hchosen horder
  have hlength : ∀ idx bs, (entries text idx bs).length = bs.length := by
    intro idx bs
    induction bs generalizing idx with
    | nil => rfl
    | cons block bs ih => rw [entries, length_cons, length_cons, ih]
  obtain ⟨blocks', hall, hset, hkeeps⟩ := setAll_document before hnodup horder
    fun c hc => hlength before.length blocks ▸ hchosen c hc
  have htoggled : toggled text file choices = (⟨before, blocks'⟩ : Document).lines.flatten := by
    rw [toggled, ← hlines, hparse, hset]
  obtain ⟨inInterfaces, hout, hblocks⟩ := hdoc
  have hdoc' : (⟨before, blocks'⟩ : Document).Valid text :=
    ⟨inInterfaces, hout, hall.document_valid hplain hblocks⟩
  have hparse' := parseRnsConfig_document hdoc'
  rw [htoggled, ← hlines, hparse]
  constructor
  · intro htoggles c hc e he hflag
    dsimp only at he
    rw [getElem?_entries, Option.mem_def, Option.map_eq_some_iff] at he
    obtain ⟨block, hblock, rfl⟩ := he
    rw [Block.entry_enabledLines_eq_nil_iff] at hflag
    refine ⟨block.head, ?_, ?_⟩
    · rw [Block.entry_startLine, document_lines_eq hblock, Block.lines, cons_append,
        getElem?_append_right (by rw [linesBefore, length_append]), linesBefore,
        length_append, Nat.sub_self]
      rfl
    · by_contra hhead
      obtain ⟨k, enabled⟩ := c
      have hend := hall.ends_newline hisLines hblock (desired_of_mem hnodup hc) hflag hhead
      have hothers := htoggles.others
      rw [← hlines, hparse, otherLines_document] at hothers
      have hmem : block.head ∈ before ++ keptFrom text choices 0 blocks :=
        mem_append_right _ (head_mem_keptFrom hblock)
      rw [← hothers] at hmem
      exact hhead (Lines.terminated_of_mem_split hend (otherLines_subset hmem)).mem
  · intro hheads
    have hsplit : Lines.split (⟨before, blocks'⟩ : Document).lines.flatten =
        (⟨before, blocks'⟩ : Document).lines := Lines.split_flatten (hkeeps hisLines hheads)
    refine ⟨?_, fun k e e' he he' => ?_, ?_⟩
    · rw [hsplit, ← hlines, hparse, hparse', hlength, hlength, hall.length]
    · rw [← hlines, hparse, getElem?_entries, Option.map_eq_some_iff] at he
      rw [hsplit, hparse', getElem?_entries, Option.map_eq_some_iff] at he'
      obtain ⟨block, hblock, rfl⟩ := he
      obtain ⟨block', hblock', rfl⟩ := he'
      exact (hall.edited k block block' hblock hblock').kept hplain _ _
    · rw [hsplit, ← hlines, hparse, hparse', otherLines_document, otherLines_document,
        hall.keptFrom hplain]

/-! ## Two files -/

/-- Text in ASCII, with values that have no quotes and no commas. -/
def ascii : Text where
  scalar value := PyStr.strip (value.takeWhile (· ≠ '#'))
  lower := List.map Char.toLower
  casefold := List.map Char.toLower
  isAlnum _ := false

theorem ascii_plain : ascii.Plain where
  scalar_flag := by decide
  scalar_comment enabled blank comment hblank := by
    have hflag : ∀ c ∈ flagValue enabled, decide (c ≠ '#') = true := by
      refine List.all_eq_true.1 ?_
      rcases enabled with _ | _ <;> decide
    have hno : ∀ c ∈ flagValue enabled ++ blank, decide (c ≠ '#') = true := by
      intro c hc
      rcases mem_append.1 hc with hc | hc
      · exact hflag c hc
      · have hc := hblank c hc
        rw [decide_eq_true_eq]
        rintro rfl
        cases hc
    have hhash : decide ('#' ≠ '#') = false := rfl
    have htake := (takeWhile_append_cons (p := fun c => decide (c ≠ '#')) hno hhash comment).1
    rw [append_assoc] at htake
    rw [ascii]
    dsimp only
    rw [htake]
    exact PyStr.strip_append isSpace_of_mem_flagValue fun c hc => isSpace_of_isBlank (hblank c hc)
  lower_flag := by decide
  lower_key := by decide

/-- A file whose second interface has no line that sets its flag. -/
def sampleFile : List Char :=
  ("[interfaces]\n[[A]]\nenabled = no # off\ntype = TCPClientInterface\n" ++
    "[[B]]\ntype = TCPClientInterface\n").toList

theorem toggles_iff_sampleFile :
    Toggles ascii sampleFile [(1, true), (0, true)]
      (toggled ascii sampleFile [(1, true), (0, true)]) :=
  (toggles_iff ascii_plain sampleFile (by decide) (by decide +kernel) (by decide +kernel)).2
    (by decide +kernel)

/-- A file whose first interface has no line that sets its flag. -/
def failingFile : List Char :=
  ("[interfaces]\n[[A]]\ntype = TCPClientInterface\n" ++
    "[[B]]\ntype = TCPClientInterface\nenabled = no\n").toList

/-- Once a line is inserted for the first interface, the second one is given another type, and
    is not enabled. -/
theorem failingFile_not_toggles :
    ¬ Toggles ascii failingFile [(0, true), (1, true)]
      (toggled ascii failingFile [(0, true), (1, true)]) := by
  intro h
  obtain ⟨e, he⟩ := Option.isSome_iff_exists.1
    (show ((parseRnsConfig ascii (Lines.split failingFile))[1]?).isSome = true by decide +kernel)
  obtain ⟨e', he'⟩ := Option.isSome_iff_exists.1
    (show ((parseRnsConfig ascii (Lines.split (toggled ascii failingFile
      [(0, true), (1, true)])))[1]?).isSome = true by decide +kernel)
  have hdisabled : ∀ e' ∈ (parseRnsConfig ascii (Lines.split (toggled ascii failingFile
      [(0, true), (1, true)])))[1]?, e'.enabled = false := by decide +kernel
  have henabled := (h.kept 1 e e' he he').chosen true rfl
  rw [hdisabled e' he'] at henabled
  cases henabled

end ReticulumPi.Rns
