import ReticulumPi.Rns.Blocks

/-!
# Edits within a block

Setting the flag of an interface replaces the values of the direct lines of its
block that set one, or inserts a line under its head, if there is none
(`Block.Edited`). The entry of the block is the same but for the flag
(`Block.Edited.kept`), and the edited lines end like those they are made of
(`Block.Edited.lines`).
-/

namespace ReticulumPi.Rns

open List

variable (text : Text)

/-- The line sets a flag. -/
def Text.isFlag (raw : List Char) : Bool :=
  match text.kindOf raw with
  | .property key _ => flagKeys.contains (text.lower (PyStr.strip key))
  | _ => false

/-- The numbers of the lines that set a flag. -/
def Text.flagLines (idx : ℕ) : List (List Char) → List ℕ
  | [] => []
  | raw :: lines =>
    if text.isFlag raw then idx :: Text.flagLines (idx + 1) lines
    else Text.flagLines (idx + 1) lines

/-- A line with the flag that it sets replaced, if it sets one. -/
def Text.setFlag (enabled : Bool) (raw : List Char) : List Char :=
  if text.isFlag raw then replacePropertyValue raw (flagValue enabled) else raw

/-- Some direct line sets a flag. -/
def Block.HasFlag (block : Block) : Prop := ∃ line ∈ block.direct, text.isFlag line = true

/-- A block once the flag of its interface has been set, if one is desired. -/
inductive Block.Edited (block : Block) : Option Bool → Block → Prop
  | unchosen : Edited block none block
  | replaced (enabled : Bool) : block.HasFlag text →
    Edited block (some enabled) { block with direct := block.direct.map (text.setFlag enabled) }
  | inserted (enabled : Bool) (indent : List Char) : ¬ block.HasFlag text →
    (∀ c ∈ indent, PyStr.isSpace c = true) → Edited block (some enabled)
      { block with direct := flagLine indent enabled :: block.direct }

/-! ## Lines that set a flag -/

variable {text} {raw : List Char} {enabled : Bool}

theorem isFlag_eq_of_kindOf {key value : List Char} (h : text.kindOf raw = .property key value) :
    text.isFlag raw = decide (text.lower (PyStr.strip key) ∈ flagKeys) := by
  rw [Text.isFlag, h, ← contains_eq_mem]

/-- What a line that sets a flag is, and once the flag is replaced. -/
theorem kindOf_replace (hplain : text.Plain) (hflag : text.isFlag raw = true) (enabled : Bool) :
    ∃ key value value', text.lower (PyStr.strip key) ∈ flagKeys ∧
      text.kindOf raw = .property key value ∧
        text.kindOf (replacePropertyValue raw (flagValue enabled)) = .property key value' ∧
          text.scalar value' = flagValue enabled := by
  cases hkind : text.kindOf raw with
  | property key value =>
    rw [isFlag_eq_of_kindOf hkind, decide_eq_true_eq] at hflag
    obtain ⟨blank, region, rest, hsets, rfl⟩ := exists_sets_of_kindOf hkind
    obtain ⟨lead, tail, -, -, hlead, htail, hsets'⟩ := hsets.replace (flagValue enabled)
    exact ⟨_, value, _, hflag, rfl, hsets'.kindOf, hplain.scalar_strip enabled hlead htail⟩
  | _ =>
    rw [Text.isFlag, hkind] at hflag
    cases hflag

/-- The line that is inserted is one that sets the flag. -/
theorem kindOf_flagLine (hplain : text.Plain) {indent : List Char}
    (hindent : ∀ c ∈ indent, PyStr.isSpace c = true) (enabled : Bool) :
    ∃ key value, text.lower (PyStr.strip key) ∈ flagKeys ∧
      text.kindOf (flagLine indent enabled) = .property key value ∧
        text.scalar value = flagValue enabled := by
  have hsets : text.Sets indent "enabled ".toList ([' '] ++ (flagValue enabled ++ ['\n']))
      (flagLine indent enabled) := by
    refine ⟨rfl, hindent, ?_, 'e', "nabled ".toList, rfl, rfl, rfl⟩
    exact List.all_eq_true.1 rfl
  refine ⟨_, _, ?_, hsets.kindOf, hplain.scalar_strip enabled ?_ (.inl ?_)⟩
  · have hkey : PyStr.strip (PyStr.rstrip "enabled ".toList) = "enabled".toList := by decide
    rw [hkey, hplain.lower_key]
    exact mem_cons_self
  all_goals exact fun c hc => mem_singleton.1 hc ▸ rfl

theorem isFlag_setFlag (hplain : text.Plain) (enabled : Bool) (raw : List Char) :
    text.isFlag (text.setFlag enabled raw) = text.isFlag raw := by
  rw [Text.setFlag]
  split_ifs with hflag
  · obtain ⟨key, value, value', hkey, hkind, hkind', -⟩ := kindOf_replace hplain hflag enabled
    rw [isFlag_eq_of_kindOf hkind, isFlag_eq_of_kindOf hkind']
  · rfl

theorem isFlag_flagLine (hplain : text.Plain) {indent : List Char}
    (hindent : ∀ c ∈ indent, PyStr.isSpace c = true) (enabled : Bool) :
    text.isFlag (flagLine indent enabled) = true := by
  obtain ⟨key, value, hkey, hkind, -⟩ := kindOf_flagLine hplain hindent enabled
  rw [isFlag_eq_of_kindOf hkind, decide_eq_true hkey]

/-- A line whose value is replaced ends as it did before. -/
theorem Text.Sets.like_replace {blank key rest : List Char} (hsets : text.Sets blank key rest raw)
    {new : List Char} (hvalue : '\n' ∉ new) : Lines.Like raw (replacePropertyValue raw new) := by
  obtain ⟨lead, tail, hrest, hbody, hlead, -, hsets'⟩ := hsets.replace new
  set value := valueOf (rest.dropWhile isBlank)
  have hraw : raw = (blank ++ (key ++ '=' :: lead)) ++ (value ++ tail) := by
    rw [hsets.eq, hrest, hbody]
    simp only [append_assoc, cons_append]
  have hnew : replacePropertyValue raw new = (blank ++ (key ++ '=' :: lead)) ++ (new ++ tail) := by
    rw [hsets'.eq]
    simp only [append_assoc, cons_append]
  refine ⟨fun hterm => ?_, fun hlast => ?_⟩
  · have hne : value ++ tail ≠ [] := by
      intro hnil
      rw [hraw, hnil, append_nil, ← append_assoc,
        Lines.terminated_append_iff (cons_ne_nil _ _)] at hterm
      rcases mem_cons.1 hterm.2.mem with h | h
      · cases h
      · cases hlead _ h
    rw [hraw, Lines.terminated_append_iff hne] at hterm
    have hno : '\n' ∉ value := not_mem_valueOf (hbody ▸ hterm.2)
    have htail : tail ≠ [] := by
      rintro rfl
      rw [append_nil] at hterm
      exact hno hterm.2.mem
    rw [Lines.terminated_append_iff htail] at hterm
    rw [hnew, Lines.terminated_append_iff (by simp [htail]), Lines.terminated_append_iff htail]
    exact ⟨hterm.1, hvalue, hterm.2.2⟩
  · refine ⟨?_, ?_⟩
    · rw [hnew]
      simp
    · obtain ⟨-, hno⟩ := hlast
      rw [hraw] at hno
      rw [hnew]
      intro hmem
      rcases mem_append.1 hmem with hmem | hmem
      · exact hno (mem_append_left _ hmem)
      · rcases mem_append.1 hmem with hmem | hmem
        · exact hvalue hmem
        · exact hno (mem_append_right _ (mem_append_right _ hmem))

theorem like_setFlag (enabled : Bool) (raw : List Char) :
    Lines.Like raw (text.setFlag enabled raw) := by
  rw [Text.setFlag]
  split_ifs with hflag
  swap
  · exact .refl raw
  cases hkind : text.kindOf raw with
  | property k v =>
    obtain ⟨blank, key, rest, hsets, -⟩ := exists_sets_of_kindOf hkind
    exact hsets.like_replace (by rcases enabled with _ | _ <;> decide)
  | _ =>
    rw [Text.isFlag, hkind] at hflag
    cases hflag

/-! ## Entries -/

namespace InterfaceEntry

variable {e e' : InterfaceEntry} {idx idx' : ℕ} {key val : List Char} {lines : List (List Char)}

theorem addProperty_flag (hkey : key ∈ flagKeys) :
    e.addProperty text idx key val =
      { e with
        properties := e.properties.set key val
        enabled := e.enabled || decide (text.lower val ∈ enabledTrue)
        enabledLines := e.enabledLines ++ [idx]
        enabledLine := if e.enabledLine < 0 ∨ key = "enabled".toList then idx
          else e.enabledLine } := by
  have htype : key ≠ "type".toList := by
    rintro rfl
    revert hkey
    decide
  rw [addProperty]
  dsimp only
  rw [if_neg htype, if_pos hkey]

theorem addProperty_other (hkey : key ∉ flagKeys) :
    e.addProperty text idx key val =
      { e with
        properties := e.properties.set key val
        ifaceType := if key = "type".toList then val else e.ifaceType } := by
  rw [addProperty]
  dsimp only
  by_cases htype : key = "type".toList
  · rw [if_pos htype, if_pos htype]
  · rw [if_neg htype, if_neg htype, if_neg hkey]

/-- A line that sets no flag adds at most another property. -/
theorem addLine_other (hraw : text.isFlag raw = false) :
    (∀ (e : InterfaceEntry) idx, e.addLine text idx raw = e) ∨ ∃ key val, key ∉ flagKeys ∧
      ∀ (e : InterfaceEntry) idx, e.addLine text idx raw =
        { e with
          properties := e.properties.set key val
          ifaceType := if key = "type".toList then val else e.ifaceType } := by
  cases hkind : text.kindOf raw with
  | property key value =>
    rw [isFlag_eq_of_kindOf hkind, decide_eq_false_iff_not] at hraw
    refine .inr ⟨_, text.scalar value, hraw, fun e idx => ?_⟩
    rw [addLine, hkind]
    exact addProperty_other hraw
  | _ =>
    refine .inl fun e idx => ?_
    rw [addLine, hkind]

theorem addLine_enabledLines (e : InterfaceEntry) (idx : ℕ) (raw : List Char) :
    (e.addLine text idx raw).enabledLines =
      e.enabledLines ++ if text.isFlag raw then [idx] else [] := by
  rcases hraw : text.isFlag raw with _ | _
  · rcases addLine_other hraw with h | ⟨key, val, -, h⟩
    all_goals
      rw [h]
      exact (append_nil _).symm
  · cases hkind : text.kindOf raw with
    | property key value =>
      rw [isFlag_eq_of_kindOf hkind, decide_eq_true_eq] at hraw
      rw [addLine, hkind]
      dsimp only
      rw [addProperty_flag hraw]
      rfl
    | _ =>
      rw [Text.isFlag, hkind] at hraw
      cases hraw

theorem addLines_enabledLines (e : InterfaceEntry) (idx : ℕ) (lines : List (List Char)) :
    (e.addLines text idx lines).enabledLines = e.enabledLines ++ text.flagLines idx lines := by
  induction lines generalizing e idx with
  | nil => exact (append_nil _).symm
  | cons raw lines ih =>
    rw [addLines, ih, addLine_enabledLines, Text.flagLines, append_assoc]
    split_ifs
    · rfl
    · rfl

/-- What two entries have in common that are read at different lines. -/
structure Same (e e' : InterfaceEntry) : Prop where
  name : e'.name = e.name
  ifaceType : e'.ifaceType = e.ifaceType
  properties : e'.properties = e.properties
  enabled : e'.enabled = e.enabled

theorem Same.addLines (h : e.Same e') (idx idx' : ℕ) (lines : List (List Char)) :
    (e.addLines text idx lines).Same (e'.addLines text idx' lines) := by
  induction lines generalizing e e' idx idx' with
  | nil => exact h
  | cons raw lines ih =>
    refine ih ?_ _ _
    rw [addLine, addLine]
    cases text.kindOf raw with
    | property key value =>
      dsimp only
      by_cases hkey : text.lower (PyStr.strip key) ∈ flagKeys
      · rw [addProperty_flag hkey, addProperty_flag hkey, h.properties, h.enabled]
        exact ⟨h.name, h.ifaceType, rfl, rfl⟩
      · rw [addProperty_other hkey, addProperty_other hkey, h.properties, h.ifaceType]
        exact ⟨h.name, rfl, rfl, h.enabled⟩
    | _ => exact h

/-- What an entry has in common with the one whose flag is set. -/
structure Set (enabled : Bool) (e e' : InterfaceEntry) : Prop where
  name : e'.name = e.name
  ifaceType : e'.ifaceType = e.ifaceType
  others : e'.others = e.others
  enabled : e'.enabled = (enabled && !e'.enabledLines.isEmpty)

theorem others_set_flag {d : Dict (List Char) (List Char)} (hkey : key ∈ flagKeys) :
    (d.set key val).select (fun key _ => decide (key ∉ flagKeys)) =
      d.select fun key _ => decide (key ∉ flagKeys) := by
  have hp : ∀ _ : List Char, decide (key ∉ flagKeys) = false := fun _ =>
    decide_eq_false (not_not.2 hkey)
  exact Dict.select_set_of_not (p := fun key _ => decide (key ∉ flagKeys)) hp val

theorem others_set_other {d : Dict (List Char) (List Char)} (hkey : key ∉ flagKeys) :
    (d.set key val).select (fun key _ => decide (key ∉ flagKeys)) =
      (d.select fun key _ => decide (key ∉ flagKeys)).set key val := by
  have hp : ∀ _ : List Char, decide (key ∉ flagKeys) = true := fun _ => decide_eq_true hkey
  exact Dict.select_set (p := fun key _ => decide (key ∉ flagKeys)) hp val

theorem Set.addLine_other (h : Set enabled e e') (hraw : text.isFlag raw = false) :
    Set enabled (e.addLine text idx raw) (e'.addLine text idx' raw) := by
  rcases InterfaceEntry.addLine_other hraw with heq | ⟨key, val, hkey, heq⟩
  · rwa [heq, heq]
  · rw [heq, heq]
    refine ⟨h.name, ?_, ?_, h.enabled⟩
    · dsimp only
      rw [h.ifaceType]
    · have hothers := h.others
      rw [InterfaceEntry.others, InterfaceEntry.others] at hothers
      rw [InterfaceEntry.others, InterfaceEntry.others, others_set_other hkey,
        others_set_other hkey, hothers]

theorem lower_mem_enabledTrue (hplain : text.Plain) (enabled : Bool) :
    decide (text.lower (flagValue enabled) ∈ enabledTrue) = enabled := by
  rw [hplain.lower_flag]
  rcases enabled with _ | _ <;> rfl

theorem Set.addLine_flag (hplain : text.Plain) (h : Set enabled e e')
    (hraw : text.isFlag raw = true) :
    Set enabled (e.addLine text idx raw)
      (e'.addLine text idx' (replacePropertyValue raw (flagValue enabled))) := by
  obtain ⟨key, value, value', hkey, hkind, hkind', hvalue⟩ := kindOf_replace hplain hraw enabled
  rw [addLine, addLine, hkind, hkind']
  dsimp only
  rw [addProperty_flag hkey, addProperty_flag hkey, hvalue]
  refine ⟨h.name, h.ifaceType, ?_, ?_⟩
  · have hothers := h.others
    rw [InterfaceEntry.others, InterfaceEntry.others] at hothers
    rw [InterfaceEntry.others, InterfaceEntry.others, others_set_flag hkey,
      others_set_flag hkey, hothers]
  · dsimp only
    rw [lower_mem_enabledTrue hplain, h.enabled]
    rcases enabled with _ | _ <;> simp

theorem Set.addLines (hplain : text.Plain) (h : Set enabled e e') (idx idx' : ℕ)
    (lines : List (List Char)) :
    Set enabled (e.addLines text idx lines)
      (e'.addLines text idx' (lines.map (text.setFlag enabled))) := by
  induction lines generalizing e e' idx idx' with
  | nil => exact h
  | cons raw lines ih =>
    rw [map_cons]
    refine ih ?_ _ _
    rw [Text.setFlag]
    rcases hraw : text.isFlag raw with _ | _
    · exact h.addLine_other hraw
    · exact h.addLine_flag hplain hraw

theorem addLines_startLine (e : InterfaceEntry) (idx : ℕ) (lines : List (List Char)) :
    (e.addLines text idx lines).startLine = e.startLine := by
  induction lines generalizing e idx with
  | nil => rfl
  | cons raw lines ih =>
    have hline : (e.addLine text idx raw).startLine = e.startLine := by
      rw [addLine]
      cases text.kindOf raw with
      | property key value =>
        dsimp only
        by_cases hkey : text.lower (PyStr.strip key) ∈ flagKeys
        · rw [addProperty_flag hkey]
        · rw [addProperty_other hkey]
      | _ => rfl
    rw [addLines, ih, hline]

/-- Without lines that set the flag, there is none of them. -/
theorem addLines_enabledLine (he : e.enabledLines = [] → e.enabledLine < 0) (idx : ℕ)
    (lines : List (List Char)) : (e.addLines text idx lines).enabledLines = [] →
      (e.addLines text idx lines).enabledLine < 0 := by
  induction lines generalizing e idx with
  | nil => exact he
  | cons raw lines ih =>
    refine ih (fun hnil => ?_) _
    rw [addLine_enabledLines] at hnil
    obtain ⟨hnil, hraw⟩ := append_eq_nil_iff.1 hnil
    split_ifs at hraw with hflag
    rcases InterfaceEntry.addLine_other (Bool.eq_false_iff.2 hflag) with heq | ⟨key, val, -, heq⟩
    all_goals
      rw [heq]
      exact he hnil

end InterfaceEntry

/-! ## Blocks -/

theorem flagLines_eq_nil_iff (idx : ℕ) (lines : List (List Char)) :
    text.flagLines idx lines = [] ↔ ∀ line ∈ lines, text.isFlag line = false := by
  induction lines generalizing idx with
  | nil => simp [Text.flagLines]
  | cons raw lines ih =>
    rw [Text.flagLines, forall_mem_cons, ← ih (idx + 1)]
    split_ifs with hraw
    all_goals simp [hraw]

theorem map_setFlag_of_not {lines : List (List Char)} (h : ∀ line ∈ lines, text.isFlag line = false)
    (enabled : Bool) : lines.map (text.setFlag enabled) = lines := by
  refine (map_congr_left fun line hline => ?_).trans (List.map_id _)
  rw [Text.setFlag, h line hline]
  rfl

namespace Block

variable {block block' : Block} {desired : Option Bool}

theorem not_hasFlag_iff :
    ¬ block.HasFlag text ↔ ∀ line ∈ block.direct, text.isFlag line = false := by
  rw [HasFlag]
  simp

theorem entry_enabledLines (block : Block) (idx : ℕ) :
    (block.entry text idx).enabledLines = text.flagLines (idx + 1) block.direct :=
  InterfaceEntry.addLines_enabledLines _ _ _

theorem entry_enabledLines_eq_nil_iff (block : Block) (idx : ℕ) :
    (block.entry text idx).enabledLines = [] ↔ ¬ block.HasFlag text := by
  rw [entry_enabledLines, flagLines_eq_nil_iff, not_hasFlag_iff]

theorem entry_startLine (block : Block) (idx : ℕ) : (block.entry text idx).startLine = idx :=
  InterfaceEntry.addLines_startLine _ _ _

theorem entry_enabledLine {idx : ℕ} (h : (block.entry text idx).enabledLines = []) :
    (block.entry text idx).enabledLine < 0 :=
  InterfaceEntry.addLines_enabledLine (fun _ => neg_one_lt_zero) _ _ h

/-- The entry of an edited block is the same, but for the flag. -/
theorem Edited.kept (hplain : text.Plain) (h : block.Edited text desired block') (idx idx' : ℕ) :
    (block.entry text idx).Kept desired (block'.entry text idx') := by
  have hset : ∀ (enabled : Bool) {e e' : InterfaceEntry}, e.Set enabled e' →
      e'.enabledLines ≠ [] → e.Kept (some enabled) e' := by
    intro enabled e e' hset hne
    refine ⟨hset.name, hset.ifaceType, hset.others, fun h => ?_, fun _ h => ?_⟩
    · cases h
    cases h
    rw [hset.enabled, isEmpty_eq_false_iff.2 hne]
    exact Bool.and_true _
  have hstart : ∀ enabled : Bool, InterfaceEntry.Set enabled
      { name := text.headName block.head, startLine := idx }
      { name := text.headName block.head, startLine := idx' } := fun enabled =>
    ⟨rfl, rfl, rfl, (Bool.and_false _).symm⟩
  cases h with
  | unchosen =>
    have hname : InterfaceEntry.Same { name := text.headName block.head, startLine := idx }
        { name := text.headName block.head, startLine := idx' } := ⟨rfl, rfl, rfl, rfl⟩
    have hsame : (block.entry text idx).Same (block.entry text idx') := hname.addLines _ _ _
    refine ⟨hsame.name, hsame.ifaceType, ?_, fun _ => ⟨hsame.properties, hsame.enabled⟩,
      fun _ h => ?_⟩
    · rw [InterfaceEntry.others, InterfaceEntry.others, hsame.properties]
    · cases h
  | replaced enabled hflag =>
    refine hset enabled ((hstart enabled).addLines hplain _ _ _) ?_
    obtain ⟨line, hline, hraw⟩ := hflag
    rw [entry_enabledLines]
    intro hnil
    have hno := (flagLines_eq_nil_iff _ _).1 hnil _ (List.mem_map_of_mem hline)
    rw [isFlag_setFlag hplain, hraw] at hno
    cases hno
  | inserted enabled indent hno hindent =>
    have hraw := isFlag_flagLine hplain hindent enabled
    refine hset enabled ?_ ?_
    · obtain ⟨key, value, hkey, hkind, hvalue⟩ := kindOf_flagLine hplain hindent enabled
      have hline : InterfaceEntry.Set enabled
          { name := text.headName block.head, startLine := idx }
          (InterfaceEntry.addLine text { name := text.headName block.head, startLine := idx' }
            (idx' + 1) (flagLine indent enabled)) := by
        rw [InterfaceEntry.addLine, hkind]
        dsimp only
        rw [InterfaceEntry.addProperty_flag hkey, hvalue]
        refine ⟨rfl, rfl, InterfaceEntry.others_set_flag hkey, ?_⟩
        dsimp only
        rw [InterfaceEntry.lower_mem_enabledTrue hplain]
        simp
      have hlines := hline.addLines hplain (idx + 1) (idx' + 1 + 1) block.direct
      rw [map_setFlag_of_not (not_hasFlag_iff.1 hno)] at hlines
      exact hlines
    · rw [entry_enabledLines, Text.flagLines, if_pos hraw]
      exact cons_ne_nil _ _

theorem isDirect_setFlag (hplain : text.Plain) {line : List Char}
    (hline : (text.kindOf line).IsDirect) (enabled : Bool) :
    (text.kindOf (text.setFlag enabled line)).IsDirect := by
  rw [Text.setFlag]
  split_ifs with hflag
  · obtain ⟨key, value, value', -, -, hkind, -⟩ := kindOf_replace hplain hflag enabled
    rw [hkind]
    trivial
  · exact hline

/-- An edited block is one. -/
theorem Edited.valid (hplain : text.Plain) (h : block.Edited text desired block')
    (hblock : block.Valid text) : block'.Valid text := by
  cases h with
  | unchosen => exact hblock
  | replaced enabled hflag =>
    refine ⟨hblock.head, ?_, hblock.nestedHead, hblock.nested, hblock.rest⟩
    intro line hline
    obtain ⟨line, hmem, rfl⟩ := List.mem_map.1 hline
    exact isDirect_setFlag hplain (hblock.direct line hmem) enabled
  | inserted enabled indent hno hindent =>
    refine ⟨hblock.head, ?_, hblock.nestedHead, hblock.nested, hblock.rest⟩
    refine forall_mem_cons.2 ⟨?_, hblock.direct⟩
    obtain ⟨key, value, -, hkind, -⟩ := kindOf_flagLine hplain hindent enabled
    rw [hkind]
    trivial

theorem Edited.rest (h : block.Edited text desired block') : block'.rest = block.rest := by
  cases h <;> rfl

/-- The lines of a block that set no flag of its interface, or all of them. -/
def keptLines (text : Text) (block : Block) (chosen : Bool) : List (List Char) :=
  if chosen then
    block.head :: (block.direct.filter (fun line => ! text.isFlag line) ++
      (block.nested ++ block.rest))
  else block.lines

theorem Edited.keptLines (hplain : text.Plain) (h : block.Edited text desired block') :
    block'.keptLines text desired.isSome = block.keptLines text desired.isSome := by
  cases h with
  | unchosen => rfl
  | replaced enabled hflag =>
    have hfilter : (block.direct.map (text.setFlag enabled)).filter
        (fun line => ! text.isFlag line) =
        block.direct.filter fun line => ! text.isFlag line := by
      induction block.direct with
      | nil => rfl
      | cons line direct ih =>
        rw [map_cons, filter_cons, filter_cons, isFlag_setFlag hplain, ih]
        rcases hraw : text.isFlag line with _ | _
        · rw [Text.setFlag, hraw]
          rfl
        · rfl
    rw [Block.keptLines, Block.keptLines, Option.isSome_some, if_pos rfl, if_pos rfl]
    dsimp only
    rw [hfilter]
  | inserted enabled indent hno hindent =>
    rw [Block.keptLines, Block.keptLines, Option.isSome_some, if_pos rfl, if_pos rfl,
      filter_cons, isFlag_flagLine hplain hindent]
    rfl

end Block

end ReticulumPi.Rns
