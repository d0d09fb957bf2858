import ReticulumPi.Rns.Sections
import ReticulumPi.Rns.Toggle

/-!
# The interface that is added

The new section is read as the one more interface that it is to be exactly if it stands in
a section that the parser takes for that of the interfaces, and is, by itself, read as what
was asked for (`adds_iff`). Where no section is named `interfaces` as it stands, it is put
at the end of the file, below whatever section this ends with
(`without_section_not_adds`).
-/

namespace ReticulumPi.Rns

open List

variable {text : Text} {raw name : List Char} {lines lines' : List (List Char)}
  {kinds : List Kind} {s : Scan}

/-! ## Where it is put -/

theorem kindOf_eq_sectionHead_iff :
    text.kindOf raw = .sectionHead name ↔ bracketed 1 (rstripNewline raw) = some name := by
  rw [Text.kindOf]
  cases hone : bracketed 1 (rstripNewline raw) with
  | some name' => simp only [Kind.sectionHead.injEq, Option.some.injEq]
  | none =>
    refine iff_of_false (fun h => ?_) (Option.some_ne_none _ ∘ Eq.symm)
    dsimp only at h
    split at h
    · cases h
    · split_ifs at h
      split at h <;> cases h

/-- The name of the section that a line of the kind begins. -/
def Kind.sectionName : Kind → Option (List Char)
  | .sectionHead name => some name
  | _ => none

theorem sectionName_kindOf (text : Text) (raw : List Char) :
    (text.kindOf raw).sectionName = bracketed 1 (rstripNewline raw) := by
  cases hone : bracketed 1 (rstripNewline raw) with
  | some name => rw [kindOf_eq_sectionHead_iff.2 hone, Kind.sectionName]
  | none =>
    cases hkind : text.kindOf raw with
    | sectionHead name =>
      rw [kindOf_eq_sectionHead_iff, hone] at hkind
      cases hkind
    | _ => rfl

theorem sections_eq (text : Text) (lines : List (List Char)) :
    sections lines = (text.kinds lines).filterMap Kind.sectionName := by
  induction lines with
  | nil => rfl
  | cons raw lines ih =>
    rw [sections, filterMap_cons, ← sectionName_kindOf text, Text.kinds, map_cons,
      filter_cons]
    rw [sections] at ih
    split_ifs with hkind
    · rw [filterMap_cons, ih]
      rfl
    · rw [show text.kindOf raw = .other by simpa using hkind, ih]
      rfl

theorem sections_cons_none (h : bracketed 1 (rstripNewline raw) = none) (l : List (List Char)) :
    sections (raw :: l) = sections l := by
  rw [sections, filterMap_cons, h]
  rfl

theorem sections_cons_some (h : bracketed 1 (rstripNewline raw) = some name)
    (l : List (List Char)) : sections (raw :: l) = name :: sections l := by
  rw [sections, filterMap_cons, h]
  rfl

theorem sections_append : sections (lines ++ lines') = sections lines ++ sections lines' :=
  filterMap_append

/-- The parser is in the section of the interfaces if the last section is that. -/
theorem read_inInterfaces (s : Scan) (kinds : List Kind) :
    (s.read text kinds).inInterfaces =
      ((kinds.filterMap Kind.sectionName).getLast?.map text.isInterfaces).getD s.inInterfaces := by
  induction kinds generalizing s with
  | nil => rfl
  | cons kind kinds ih =>
    rw [Scan.read, foldl_cons]
    refine (ih _).trans ?_
    cases kind with
    | sectionHead name =>
      rw [filterMap_cons, Kind.sectionName, getLast?_cons]
      cases (kinds.filterMap Kind.sectionName).getLast? <;> rfl
    | subsectionHead name | nestedHead | property key value =>
      refine congrArg (Option.getD _) ?_
      rw [Scan.stepKind]
      split_ifs <;> rfl
    | other => rfl

theorem lstrip_eq_nil_of_strip {line : List Char} (h : PyStr.strip line = []) :
    PyStr.lstrip line = [] := by
  rw [PyStr.strip, PyStr.rstrip, rdropWhile_eq_nil_iff] at h
  by_contra hne
  have hhead := head_dropWhile_not PyStr.isSpace hne
  exact Bool.false_ne_true (hhead.symm.trans (h _ (head_mem hne)))

/-- A blank line is of no kind. -/
theorem kindOf_of_blank (h : PyStr.strip (rstripNewline raw) = []) : text.kindOf raw = .other := by
  have hstrip := lstrip_eq_nil_of_strip h
  have hbracketed : ∀ depth, 0 < depth → bracketed depth (rstripNewline raw) = none := by
    intro depth hdepth
    rw [bracketed, hstrip]
    refine if_neg fun hb => ?_
    obtain ⟨n, rfl⟩ := Nat.exists_eq_succ_of_ne_zero hdepth.ne'
    cases hb.1
  have hnested : isNested (rstripNewline raw) = false := by
    rw [isNested, hstrip]
    rfl
  have hkeyValue : text.keyValue (rstripNewline raw) = none := by
    rw [Text.keyValue, hstrip]
    rfl
  rw [Text.kindOf]
  simp only [hbracketed 1 Nat.one_pos, hbracketed 2 Nat.two_pos, hnested, hkeyValue,
    Bool.false_eq_true, if_false]

/-- The kinds begin with the head of a section, if with any. -/
def BeginsSection (kinds : List Kind) : Prop := ∀ kind ∈ kinds.head?, ∃ name, kind = .sectionHead name

theorem beginsSection_cons (hname : bracketed 1 (rstripNewline raw) = some name) :
    BeginsSection (text.kinds (raw :: lines)) := by
  intro kind hkind
  rw [Text.kinds, map_cons, kindOf_eq_sectionHead_iff.2 hname] at hkind
  exact ⟨name, (Option.mem_some_iff.1 hkind).symm⟩

/-- Within the section of the interfaces, the end is before the next section, or after the
    last line that is not blank. -/
theorem endFrom_inside (text : Text) (lines : List (List Char)) (idx last : ℕ) :
    ∃ B C, lines = B ++ C ∧ sections B = [] ∧ BeginsSection (text.kinds C) ∧
      (text.endFrom idx true last lines = idx + B.length ∨
        B = [] ∧ text.endFrom idx true last lines = last ∧ text.kinds lines = []) := by
  induction lines generalizing idx last with
  | nil => exact ⟨[], [], rfl, rfl, nofun, .inr ⟨rfl, rfl, rfl⟩⟩
  | cons raw lines ih =>
    rw [Text.endFrom]
    cases hone : bracketed 1 (rstripNewline raw) with
    | some name => exact ⟨[], raw :: lines, rfl, rfl, beginsSection_cons hone, .inl rfl⟩
    | none =>
      have hsections : ∀ B, sections B = [] → sections (raw :: B) = [] := fun B hB =>
        (sections_cons_none hone B).trans hB
      by_cases hblank : PyStr.strip (rstripNewline raw) = []
      · -- A blank line counts only if another line follows in the section.
        obtain ⟨B, C, rfl, hB, hC, hend⟩ := ih (idx + 1) last
        dsimp only
        rw [if_neg fun h => h.2 hblank]
        rcases hend with hend | ⟨rfl, hend, hkinds⟩
        · exact ⟨raw :: B, C, rfl, hsections B hB, hC,
            .inl (by rw [hend, length_cons]; omega)⟩
        · refine ⟨[], raw :: C, rfl, rfl, ?_, .inr ⟨rfl, hend, ?_⟩⟩ <;>
            rw [Text.kinds, map_cons, kindOf_of_blank hblank]
          · exact hC
          · exact hkinds
      · obtain ⟨B, C, rfl, hB, hC, hend⟩ := ih (idx + 1) (idx + 1)
        dsimp only
        rw [if_pos ⟨rfl, hblank⟩]
        refine ⟨raw :: B, C, rfl, hsections B hB, hC, .inl ?_⟩
        rcases hend with hend | ⟨rfl, hend, -⟩
        · rw [hend, length_cons]
          omega
        · exact hend

/-- Before the section of the interfaces, the end is that of the first one found. -/
theorem endFrom_outside (text : Text) (lines : List (List Char)) (idx last : ℕ) :
    ((∀ name ∈ sections lines, text.namesInterfaces name = false) ∧
      text.endFrom idx false last lines = last) ∨
    ∃ A C name, lines = A ++ C ∧ text.endFrom idx false last lines = idx + A.length ∧
      BeginsSection (text.kinds C) ∧ (sections A).getLast? = some name ∧
        text.namesInterfaces name = true := by
  induction lines generalizing idx with
  | nil => exact .inl ⟨nofun, rfl⟩
  | cons raw lines ih =>
    rw [Text.endFrom]
    cases hone : bracketed 1 (rstripNewline raw) with
    | none =>
      have hsections := sections_cons_none hone
      dsimp only
      rw [if_neg fun h => Bool.false_ne_true h.1, hsections]
      refine (ih (idx + 1)).imp_right ?_
      rintro ⟨A, C, name, rfl, hend, hC, hlast, hname⟩
      refine ⟨raw :: A, C, name, rfl, ?_, hC, (congrArg _ (hsections A)).trans hlast, hname⟩
      rw [hend, length_cons]
      omega
    | some name =>
      have hsections := sections_cons_some hone
      dsimp only
      rw [if_neg Bool.false_ne_true]
      by_cases hname : text.namesInterfaces name = true
      · rw [if_pos hname]
        obtain ⟨B, C, rfl, hB, hC, hend⟩ := endFrom_inside text lines (idx + 1) (idx + 1)
        refine .inr ⟨raw :: B, C, name, rfl, ?_, hC, ?_, hname⟩
        · rcases hend with hend | ⟨rfl, hend, -⟩
          · rw [hend, length_cons]
            omega
          · exact hend
        · rw [hsections, hB]
          rfl
      · rw [if_neg hname, hsections]
        refine (ih (idx + 1)).imp ?_ ?_
        · exact fun ⟨hno, hend⟩ =>
            ⟨forall_mem_cons.2 ⟨Bool.eq_false_iff.2 hname, hno⟩, hend⟩
        · rintro ⟨A, C, name', rfl, hend, hC, hlast, hname'⟩
          refine ⟨raw :: A, C, name', rfl, ?_, hC, ?_, hname'⟩
          · rw [hend, length_cons]
            omega
          · rw [hsections, getLast?_cons, hlast]
            rfl

/-! ## Lines of a file -/

theorem onLine_readLines {file : List Char} (hraw : raw ∈ readLines file) :
    OnLine (rstripNewline raw) := by
  have hreturn : '\r' ∉ raw := fun h => Lines.not_mem_universal false file (by
    rw [← Lines.flatten_split (Lines.universal false file)]
    exact mem_flatten.2 ⟨raw, hraw, h⟩)
  have hsub : ∀ c ∈ rstripNewline raw, c ∈ raw := fun c hc => (List.rdropWhile_prefix _ _).subset hc
  refine ⟨fun h => ?_, fun h => hreturn (hsub _ h)⟩
  rcases (Lines.isLines_split _).of_mem hraw with ⟨line, hline, rfl⟩ | hline
  · rw [rstripNewline, rdropWhile_concat_pos _ _ _ rfl] at h
    exact hline ((List.rdropWhile_prefix _ _).subset h)
  · exact hline.2 (hsub _ h)

/-- A line without its newlines is of the same kind. -/
theorem kindOf_append_newline (raw : List Char) :
    text.kindOf (raw ++ ['\n']) = text.kindOf raw := by
  rw [Text.kindOf, Text.kindOf, rstripNewline, rdropWhile_concat_pos _ _ _ rfl]
  rfl

theorem kinds_cons_other (h : text.kindOf raw = .other) (lines : List (List Char)) :
    text.kinds (raw :: lines) = text.kinds lines := by
  rw [Text.kinds, map_cons, h]
  rfl

theorem kinds_cons (raw : List Char) (lines : List (List Char)) :
    text.kinds (raw :: lines) = text.kinds [raw] ++ text.kinds lines := by
  rw [← kinds_append, singleton_append]

/-- A newline at the end of a text makes no line of another kind. -/
theorem kinds_split_append_newline (h : Lines.IsLines lines) :
    text.kinds (Lines.split (lines.flatten ++ ['\n'])) = text.kinds lines := by
  have hblank : text.kinds [['\n']] = [] := kinds_cons_other (kindOf_of_blank rfl) []
  induction lines with
  | nil => exact hblank
  | cons raw lines ih =>
    rw [flatten_cons, append_assoc]
    rcases h.1 with hline | ⟨hline, rfl⟩
    · rw [Lines.split_append_of_terminated hline, kinds_cons, ih h.2, ← kinds_cons]
    · have hend : Lines.Terminated (raw ++ ['\n']) := ⟨raw, hline.2, rfl⟩
      have hsplit := Lines.split_append_of_terminated hend []
      rw [append_nil] at hsplit
      rw [flatten_nil, nil_append, hsplit, Text.kinds, map_cons,
        kindOf_append_newline]
      rfl

/-- Lines that are inserted in a file after an empty one are read between the others. -/
theorem kinds_insert {file : List Char} {A C block : List (List Char)} {init : List Char}
    (hfile : readLines file = A ++ C) (hblock : block.flatten = init ++ ['\n']) :
    text.kinds (readLines (A ++ (['\n'] :: block) ++ C).flatten) =
      text.kinds A ++ (text.kinds (readLines block.flatten) ++ text.kinds C) := by
  have hno : '\r' ∉ (A ++ C).flatten := by
    rw [← hfile, readLines, Lines.flatten_split]
    exact Lines.not_mem_universal false file
  rw [flatten_append, mem_append, not_or] at hno
  have hlines : Lines.IsLines (A ++ C) := hfile ▸ Lines.isLines_split _
  obtain ⟨hA, hC, -⟩ := Lines.isLines_append.1 hlines
  have hflat : (A ++ (['\n'] :: block) ++ C).flatten =
      A.flatten ++ '\n' :: (init ++ '\n' :: C.flatten) := by
    simp only [flatten_append, flatten_cons, hblock, append_assoc,
      cons_append, nil_append]
  have huniversal : Lines.universal false (A.flatten ++ '\n' :: (init ++ '\n' :: C.flatten)) =
      A.flatten ++ '\n' :: (Lines.universal false (init ++ ['\n']) ++ C.flatten) := by
    rw [Lines.universal_append_of_not_mem hno.1,
      show Lines.universal false ('\n' :: (init ++ '\n' :: C.flatten)) =
        '\n' :: Lines.universal false (init ++ '\n' :: C.flatten) from rfl,
      Lines.universal_append_newline, Lines.universal_of_not_mem hno.2]
  rw [readLines, hflat, huniversal, Lines.split_append_newline, kinds_append,
    kinds_split_append_newline hA, Lines.split_append_of_newline (Lines.universal_newline init),
    Lines.split_flatten hC, kinds_append, readLines, hblock]

/-! ## What is on a line -/

/-- What a line of the kind has given is on one line, and a key has no brackets. -/
def Kind.OnLine : Kind → Prop
  | .sectionHead name | .subsectionHead name => Rns.OnLine name
  | .property key value => Rns.OnLine key ∧ '[' ∉ key ∧ Rns.OnLine value
  | _ => True

/-- The same of an entry. -/
structure InterfaceEntry.OnLine (e : InterfaceEntry) : Prop where
  name : Rns.OnLine e.name
  ifaceType : Rns.OnLine e.ifaceType
  properties : ∀ key value, e.properties.get? key = some value →
    Rns.OnLine key ∧ '[' ∉ key ∧ Rns.OnLine value

theorem OnLine.of_subset {t t' : List Char} (h : OnLine t) (hsub : ∀ c ∈ t', c ∈ t) : OnLine t' :=
  ⟨fun hc => h.1 (hsub _ hc), fun hc => h.2 (hsub _ hc)⟩

theorem onLine_nil : OnLine [] := ⟨not_mem_nil, not_mem_nil⟩

theorem mem_of_mem_strip {c : Char} {t : List Char} (h : c ∈ PyStr.strip t) : c ∈ t :=
  (dropWhile_suffix _).subset ((List.rdropWhile_prefix _ _).subset h)

theorem mem_of_mem_bracketed {depth : ℕ} {line : List Char} (h : bracketed depth line = some name) :
    ∀ c ∈ name, c ∈ line := by
  intro c hc
  obtain ⟨-, h⟩ := Option.ite_none_right_eq_some.1 h
  cases h
  exact (dropWhile_suffix _).subset
    ((drop_suffix _ _).subset ((List.takeWhile_prefix _).subset hc))

theorem keyValue_subset {line key value : List Char} (h : text.keyValue line = some (key, value)) :
    (∀ c ∈ key, c ∈ line) ∧ (∀ c ∈ key, text.isKey c = true) ∧ ∀ c ∈ value, c ∈ line := by
  rw [Text.keyValue] at h
  have hlstrip : ∀ c ∈ PyStr.lstrip line, c ∈ line := fun c hc =>
    (dropWhile_suffix _).subset hc
  split at h
  · next rest hdrop =>
    split_ifs at h
    cases h
    refine ⟨fun c hc => ?_, fun c hc => ?_, fun c hc => ?_⟩
    · exact hlstrip c ((List.takeWhile_prefix _).subset ((List.rdropWhile_prefix _ _).subset hc))
    · exact mem_takeWhile_imp ((List.rdropWhile_prefix _ _).subset hc)
    · refine hlstrip c ((dropWhile_suffix text.isKey).subset ?_)
      rw [hdrop]
      exact mem_cons_of_mem _ (mem_of_mem_strip hc)
  · cases h

theorem kindOf_onLine (h : OnLine (rstripNewline raw)) : (text.kindOf raw).OnLine := by
  rw [Text.kindOf]
  cases hone : bracketed 1 (rstripNewline raw) with
  | some name => exact h.of_subset (mem_of_mem_bracketed hone)
  | none =>
    cases htwo : bracketed 2 (rstripNewline raw) with
    | some name => exact h.of_subset (mem_of_mem_bracketed htwo)
    | none =>
      dsimp only
      split_ifs
      · trivial
      · cases hkey : text.keyValue (rstripNewline raw) with
        | none => trivial
        | some p =>
          obtain ⟨hsub, hword, hvalue⟩ := keyValue_subset hkey
          exact ⟨h.of_subset hsub, fun hb => absurd (hword _ hb) (by
            rw [show text.isKey '[' = false from rfl]
            exact Bool.false_ne_true), h.of_subset hvalue⟩

theorem kinds_onLine {file : List Char} : ∀ kind ∈ text.kinds (readLines file), kind.OnLine := by
  intro kind hkind
  obtain ⟨raw, hraw, rfl⟩ := List.mem_map.1 (mem_of_mem_filter hkind)
  exact kindOf_onLine (onLine_readLines hraw)

theorem OnLine.lower (htext : text.Reads) {t : List Char} :
    OnLine (text.lower t) ↔ OnLine t := by
  rw [OnLine, OnLine, htext.mem_lower _ (by decide), htext.mem_lower _ (by decide)]

theorem InterfaceEntry.OnLine.addProperty {e : InterfaceEntry} (h : e.OnLine) {idx : ℕ}
    {key value : List Char} (hkey : Rns.OnLine key) (hbracket : '[' ∉ key)
    (hvalue : Rns.OnLine value) : (e.addProperty text idx key value).OnLine := by
  have hproperties : ∀ k v, (e.properties.set key value).get? k = some v →
      Rns.OnLine k ∧ '[' ∉ k ∧ Rns.OnLine v := by
    intro k v hk
    rw [Dict.get?_set] at hk
    split_ifs at hk with hkk
    · cases hk
      exact hkk ▸ ⟨hkey, hbracket, hvalue⟩
    · exact h.properties k v hk
  by_cases hflag : key ∈ flagKeys
  · rw [addProperty_flag hflag]
    exact ⟨h.name, h.ifaceType, hproperties⟩
  · rw [addProperty_other hflag]
    refine ⟨h.name, ?_, hproperties⟩
    dsimp only
    split_ifs
    · exact hvalue
    · exact h.ifaceType

theorem read_onLine (htext : text.Reads) (hkinds : ∀ kind ∈ kinds, kind.OnLine)
    (hs : ∀ e ∈ s.finish, e.OnLine) : ∀ e ∈ (s.read text kinds).finish, e.OnLine := by
  induction kinds generalizing s with
  | nil => exact hs
  | cons kind kinds ih =>
    obtain ⟨hkind, hkinds⟩ := forall_mem_cons.1 hkinds
    refine ih (s := s.stepKind text 0 kind) hkinds ?_
    cases kind with
    | sectionHead name =>
      rw [Scan.stepKind, Scan.finish, Option.toList_none, append_nil]
      exact hs
    | subsectionHead name =>
      rw [Scan.stepKind]
      split_ifs
      · refine forall_mem_append.2 ⟨hs, forall_mem_singleton.2 ?_⟩
        exact ⟨htext.scalar_onLine name hkind, onLine_nil, fun _ _ hk => by
          rw [Dict.get?_empty] at hk
          cases hk⟩
      · exact hs
    | nestedHead =>
      rw [Scan.stepKind]
      split_ifs <;> exact hs
    | property key value =>
      obtain ⟨hkey, hbracket, hvalue⟩ := hkind
      have hmem : ∀ c ∈ PyStr.strip key, c ∈ key := fun _ => mem_of_mem_strip
      rw [Scan.stepKind]
      split_ifs
      · obtain ⟨hinterfaces, hcurrent⟩ := forall_mem_append.1 hs
        refine forall_mem_append.2 ⟨hinterfaces, ?_⟩
        cases hc : s.current with
        | none => exact fun _ he => absurd he not_mem_nil
        | some e =>
          rw [hc] at hcurrent
          refine forall_mem_singleton.2 ((hcurrent e mem_cons_self).addProperty
            ((OnLine.lower htext).2 (hkey.of_subset hmem)) ?_ (htext.scalar_onLine _ hvalue))
          rw [htext.mem_lower _ (by decide)]
          exact fun hb => hbracket (hmem _ hb)
      · exact hs
    | other => exact hs

/-- What is read from a file has no newlines, and its keys no brackets. -/
theorem parseFile_onLine (htext : text.Reads) {file : List Char} {e : InterfaceEntry}
    (he : e ∈ parseFile text file) : e.OnLine := by
  obtain ⟨e', he', hsame⟩ := exists_of_mem_right (parse_same (readLines file)) he
  have h := read_onLine htext kinds_onLine (s := {}) nofun e' he'
  exact ⟨hsame.name ▸ h.name, hsame.ifaceType ▸ h.ifaceType, hsame.properties ▸ h.properties⟩

/-- The end of the section of the interfaces: what is put there is in a section that the
    parser takes for it if there is a place for it, and a new section follows, if anything. -/
theorem findInterfacesEnd_spec (htext : text.Reads) (file : List Char) :
    ∃ A C, readLines file = A ++ C ∧ text.findInterfacesEnd (readLines file) = A.length ∧
      BeginsSection (text.kinds C) ∧
        ((Scan.read text {} (text.kinds A)).inInterfaces = true ↔
          text.HasPlace (readLines file)) := by
  have hin : ∀ A, (Scan.read text {} (text.kinds A)).inInterfaces =
      ((sections A).getLast?.map text.isInterfaces).getD false := by
    intro A
    rw [read_inInterfaces, sections_eq text]
  rcases endFrom_outside text (readLines file) 0 (readLines file).length with
    ⟨hno, hend⟩ | ⟨A, C, name, hlines, hend, hC, hlast, hname⟩
  · refine ⟨readLines file, [], (append_nil _).symm, hend, nofun, ?_⟩
    rw [hin, Text.HasPlace]
    constructor
    · intro h
      cases hlast : (sections (readLines file)).getLast? with
      | none =>
        rw [hlast] at h
        cases h
      | some name =>
        rw [hlast] at h
        exact .inr ⟨name, rfl, h⟩
    · rintro (⟨name, hmem, hname⟩ | ⟨name, hlast, hname⟩)
      · rw [hno name hmem] at hname
        cases hname
      · rw [hlast]
        exact hname
  · refine ⟨A, C, hlines, by rw [Text.findInterfacesEnd, hend, Nat.zero_add], hC, ?_⟩
    have hmem : name ∈ sections A := mem_of_getLast? hlast
    refine iff_of_true ?_ (.inl ⟨name, ?_, hname⟩)
    · -- The name is on a line of the file, so the parser takes it for `interfaces` too.
      rw [hin, hlast]
      refine htext.interfaces name ?_ hname
      obtain ⟨raw, hraw, hone⟩ := mem_filterMap.1 hmem
      exact (onLine_readLines (hlines ▸ mem_append_left C hraw)).of_subset
        (mem_of_mem_bracketed hone)
    · rw [hlines, sections_append]
      exact mem_append_left _ hmem

/-! ## What is written -/

/-- The name, the type and the properties are each on one line. -/
structure OnLines (text : Text) (name ifaceType : List Char) (properties : Properties) : Prop where
  name : OnLine name
  ifaceType : OnLine ifaceType
  properties : ∀ p ∈ text.kept properties, OnLine p.1 ∧ '[' ∉ p.1 ∧ OnLine p.2

variable {ifaceType file : List Char} {properties : Properties} {e e' : InterfaceEntry}

theorem InterfaceEntry.IsNew.onLines (htext : text.Reads)
    (h : e.IsNew text name ifaceType properties) (he : e.OnLine) :
    OnLines text name ifaceType properties where
  name := h.hasName ▸ he.name
  ifaceType := h.hasType ▸ he.ifaceType
  properties p hp := by
    obtain ⟨hkey, hbracket, hvalue⟩ := he.properties _ _ (h.given p hp)
    rw [OnLine.lower htext] at hkey
    rw [htext.mem_lower _ (by decide)] at hbracket
    exact ⟨hkey, hbracket, hvalue⟩

theorem InterfaceEntry.IsNew.congr (h : e.IsNew text name ifaceType properties)
    (hsame : e.Same e') : e'.IsNew text name ifaceType properties where
  hasName := hsame.name.trans h.hasName
  hasType := hsame.ifaceType.trans h.hasType
  enabled := hsame.enabled.trans h.enabled
  typeKey := hsame.properties ▸ h.typeKey
  enabledKey := hsame.properties ▸ h.enabledKey
  given p hp := hsame.properties ▸ h.given p hp
  keys key hkey := h.keys key (hsame.properties ▸ hkey)

theorem OnLine.append {t t' : List Char} (h : OnLine t) (h' : OnLine t') : OnLine (t ++ t') :=
  ⟨fun hc => (mem_append.1 hc).elim h.1 h'.1, fun hc => (mem_append.1 hc).elim h.2 h'.2⟩

/-- A line with its newline. -/
def Whole (raw : List Char) : Prop := ∃ t, OnLine t ∧ raw = t ++ ['\n']

theorem headLine_eq (name : List Char) :
    headLine name = "[[".toList ++ (name ++ "]]".toList) ++ ['\n'] := by
  rw [headLine, append_assoc, append_assoc]
  rfl

theorem propertyLine_eq (indent key value : List Char) :
    propertyLine indent key value = indent ++ (key ++ (" = ".toList ++ value)) ++ ['\n'] := by
  simp only [propertyLine, append_assoc]

theorem whole_headLine (h : OnLine name) : Whole (headLine name) :=
  ⟨_, (show OnLine "[[".toList by decide).append (h.append (by decide)), headLine_eq name⟩

theorem whole_propertyLine {indent key value : List Char} (hindent : OnLine indent)
    (hkey : OnLine key) (hvalue : OnLine value) : Whole (propertyLine indent key value) :=
  ⟨_, hindent.append (hkey.append ((show OnLine " = ".toList by decide).append hvalue)),
    propertyLine_eq indent key value⟩

/-- Whole lines are read as they are written. -/
theorem readLines_of_whole (h : ∀ raw ∈ lines, Whole raw) : readLines lines.flatten = lines := by
  have hreturn : '\r' ∉ lines.flatten := by
    intro hmem
    obtain ⟨raw, hraw, hmem⟩ := mem_flatten.1 hmem
    obtain ⟨t, ht, rfl⟩ := h raw hraw
    exact (mem_append.1 hmem).elim ht.2 (by decide)
  have hlines : Lines.IsLines lines := by
    clear hreturn
    induction lines with
    | nil => trivial
    | cons raw lines ih =>
      obtain ⟨⟨t, ht, rfl⟩, hlines⟩ := forall_mem_cons.1 h
      exact ⟨.inl ⟨t, ht.1, rfl⟩, ih hlines⟩
  rw [readLines, Lines.universal_of_not_mem hreturn, Lines.split_flatten hlines]

theorem OnLines.whole (h : OnLines text name ifaceType properties) :
    ∀ raw ∈ text.block name ifaceType properties, Whole raw := by
  have hindent : OnLine "  ".toList := by decide
  refine forall_mem_cons.2 ⟨whole_headLine h.name, forall_mem_cons.2
    ⟨whole_propertyLine hindent (by decide) h.ifaceType, forall_mem_cons.2
      ⟨whole_propertyLine hindent (by decide) (by decide), fun raw hraw => ?_⟩⟩⟩
  obtain ⟨p, hp, rfl⟩ := List.mem_map.1 hraw
  obtain ⟨hkey, -, hvalue⟩ := h.properties p hp
  exact whole_propertyLine hindent hkey hvalue

/-- A line that begins with no bracket sets a property, or does nothing. -/
theorem isDirect_of_not_bracket (h : ∀ l, PyStr.lstrip (rstripNewline raw) ≠ '[' :: l) :
    (text.kindOf raw).IsDirect := by
  have hbracketed : ∀ depth, 0 < depth → bracketed depth (rstripNewline raw) = none := by
    intro depth hdepth
    rw [bracketed]
    refine if_neg fun hand => ?_
    obtain ⟨depth, rfl⟩ := Nat.exists_eq_succ_of_ne_zero hdepth.ne'
    rcases hl : PyStr.lstrip (rstripNewline raw) with _ | ⟨c, l⟩
    · rw [hl] at hand
      cases hand.1
    · rw [hl, take_succ_cons, replicate_succ] at hand
      exact h l (hl.trans (congrArg (· :: l) (List.cons.inj hand.1).1))
  have hnested : isNested (rstripNewline raw) = false := by
    rw [isNested]
    rcases hl : PyStr.lstrip (rstripNewline raw) with _ | ⟨c, l⟩
    · rfl
    · have hno : (c :: l).take 3 ≠ "[[[".toList := fun heq =>
        h l (hl.trans (congrArg (· :: l) (List.cons.inj heq).1))
      rw [decide_eq_false hno, Bool.false_and]
  rw [Text.kindOf]
  simp only [hbracketed 1 Nat.one_pos, hbracketed 2 Nat.two_pos, hnested, Bool.false_eq_true,
    if_false]
  cases text.keyValue (rstripNewline raw) <;> trivial

theorem lstrip_append_cons {c : Char} (hc : PyStr.isSpace c = false) (before after : List Char) :
    ∃ d t, PyStr.lstrip (before ++ c :: after) = d :: t ∧ d ∈ before ++ [c] := by
  induction before with
  | nil => exact ⟨c, after, by rw [PyStr.lstrip, nil_append, dropWhile_cons, hc]; rfl,
      mem_singleton_self c⟩
  | cons b before ih =>
    rw [PyStr.lstrip, cons_append, dropWhile_cons]
    split_ifs
    · obtain ⟨d, t, hd, hmem⟩ := ih
      exact ⟨d, t, hd, mem_cons_of_mem b hmem⟩
    · exact ⟨b, _, rfl, mem_cons_self⟩

theorem isDirect_propertyLine {indent key value : List Char} (hindent : '[' ∉ indent)
    (h : '[' ∉ key) : (text.kindOf (propertyLine indent key value)).IsDirect := by
  refine isDirect_of_not_bracket fun l hl => ?_
  have hline : propertyLine indent key value =
      (indent ++ (key ++ [' '])) ++ '=' :: (' ' :: (value ++ ['\n'])) := by
    rw [propertyLine, append_assoc, append_assoc]
    rfl
  rw [hline, rstripNewline, rdropWhile_append_cons rfl] at hl
  obtain ⟨d, t, hd, hmem⟩ := lstrip_append_cons (c := '=') rfl (indent ++ (key ++ [' ']))
    (List.rdropWhile isNewline (' ' :: (value ++ ['\n'])))
  -- What it begins with is not part of the value.
  cases (List.cons.inj (hd.symm.trans hl)).1
  simp only [mem_append, mem_singleton] at hmem
  rcases hmem with (hmem | hmem | hmem) | hmem
  · exact hindent hmem
  · exact h hmem
  · cases hmem
  · cases hmem

/-- The head of the section is that of an interface, or there is none. -/
theorem kinds_headLine (text : Text) (name : List Char) :
    (∃ n, text.kinds [headLine name] = [.subsectionHead n]) ∨
      ∀ kind ∈ text.kinds [headLine name], kind = .nestedHead := by
  have hline : ∃ rest, rstripNewline (headLine name) = '[' :: '[' :: rest := by
    refine ⟨(name ++ "]]\n".toList).rdropWhile isNewline, ?_⟩
    have hend : name ++ "]]\n".toList = (name ++ [']']) ++ ']' :: ['\n'] := by
      rw [append_assoc]
      rfl
    rw [headLine, rstripNewline, hend, ← append_assoc, rdropWhile_append_cons rfl,
      rdropWhile_append_cons rfl]
    rfl
  obtain ⟨rest, hline⟩ := hline
  have hlstrip : PyStr.lstrip ('[' :: '[' :: rest) = '[' :: '[' :: rest := rfl
  have hone : bracketed 1 ('[' :: '[' :: rest) = none := by
    rw [bracketed, hlstrip]
    exact if_neg fun h => h.2.1 rfl
  have hkey : text.keyValue ('[' :: '[' :: rest) = none := by
    rw [Text.keyValue, hlstrip]
    rfl
  have hkind : (∃ n, text.kindOf (headLine name) = .subsectionHead n) ∨
      text.kindOf (headLine name) = .nestedHead ∨ text.kindOf (headLine name) = .other := by
    rw [Text.kindOf, hline]
    simp only [hone, hkey]
    cases bracketed 2 ('[' :: '[' :: rest) with
    | some n => exact .inl ⟨n, rfl⟩
    | none =>
      cases isNested ('[' :: '[' :: rest)
      · exact .inr (.inr rfl)
      · exact .inr (.inl rfl)
  rcases hkind with ⟨n, hn⟩ | hn | hn
  · exact .inl ⟨n, by rw [Text.kinds, map_cons, hn]; rfl⟩
  · refine .inr ?_
    rw [Text.kinds, map_cons, hn]
    simp
  · refine .inr ?_
    rw [kinds_cons_other hn]
    rintro _ ⟨⟩

variable (h : OnLines text name ifaceType properties)
include h

/-- The rest of the section sets properties. -/
theorem OnLines.kinds_block : ∃ direct, (∀ kind ∈ direct, kind.IsDirect) ∧
      text.kinds (readLines (text.block name ifaceType properties).flatten) =
        text.kinds [headLine name] ++ direct := by
  refine ⟨_, fun kind hkind => ?_,
    (congrArg text.kinds (readLines_of_whole h.whole)).trans (kinds_cons _ _)⟩
  obtain ⟨raw, hraw, rfl⟩ := List.mem_map.1 (mem_of_mem_filter hkind)
  rcases mem_cons.1 hraw with rfl | hraw
  · exact isDirect_propertyLine (by decide) (by decide)
  rcases mem_cons.1 hraw with rfl | hraw
  · exact isDirect_propertyLine (by decide) (by decide)
  · obtain ⟨p, hp, rfl⟩ := List.mem_map.1 hraw
    exact isDirect_propertyLine (by decide) (h.properties p hp).2.1

/-- The section begins with the head of an interface, or no line of it is one. -/
theorem OnLines.kinds_cases :
    (∃ n direct, text.kinds (readLines (text.block name ifaceType properties).flatten) =
        .subsectionHead n :: direct ∧ ∀ kind ∈ direct, kind.IsDirect) ∨
      ∀ kind ∈ text.kinds (readLines (text.block name ifaceType properties).flatten),
        kind.IsBody := by
  obtain ⟨direct, hdirect, hkinds⟩ := h.kinds_block
  rcases kinds_headLine text name with ⟨n, hn⟩ | hn
  · exact .inl ⟨n, direct, by rw [hkinds, hn]; rfl, hdirect⟩
  · refine .inr fun kind hkind => ?_
    rw [hkinds] at hkind
    rcases mem_append.1 hkind with hkind | hkind
    · rw [hn kind hkind]
      trivial
    · have := hdirect kind hkind
      cases kind <;> trivial

/-- Outside of the section of the interfaces, it is passed over. -/
theorem OnLines.read_outside (hs : s.inInterfaces = false) :
    s.read text (text.kinds (readLines (text.block name ifaceType properties).flatten)) = s := by
  refine read_of_outside hs fun kind hkind n hn => ?_
  subst hn
  rcases h.kinds_cases with ⟨m, direct, hkinds, hdirect⟩ | hbody
  · rw [hkinds] at hkind
    rcases mem_cons.1 hkind with hm | hm
    · cases hm
    · exact hdirect _ hm
  · exact hbody _ hkind

omit h

theorem finish_read_body (hkinds : ∀ kind ∈ kinds, kind.IsBody) :
    (s.read text kinds).finish.length = s.finish.length := by
  obtain ⟨hinterfaces, -, hcurrent⟩ := read_body (s := s) hkinds
  have hlength : ∀ o : Option InterfaceEntry, o.toList.length = o.isSome.toNat := by
    rintro (_ | _) <;> rfl
  rw [Scan.finish, Scan.finish, length_append, length_append, hinterfaces, hlength,
    hlength, hcurrent]

/-! ## The result -/

theorem exists_flatten_newline (hne : lines ≠ []) (h : ∀ raw ∈ lines, ∃ init, raw = init ++ ['\n']) :
    ∃ init, lines.flatten = init ++ ['\n'] := by
  obtain ⟨before, raw, rfl⟩ := (eq_nil_or_concat' lines).resolve_left hne
  obtain ⟨init, rfl⟩ := h raw (mem_append_right _ mem_cons_self)
  refine ⟨before.flatten ++ init, ?_⟩
  rw [flatten_append, flatten_singleton, append_assoc]

/-- The interfaces of the file that is written, by the kinds of the lines before and after
    the new section. -/
theorem kinds_added (htext : text.Reads) (file name ifaceType : List Char)
    (properties : Properties) :
    ∃ A C, text.kinds (readLines file) = A ++ C ∧ BeginsSection C ∧
      ((Scan.read text {} A).inInterfaces = true ↔ text.HasPlace (readLines file)) ∧
        text.kinds (readLines (added text file name ifaceType properties)) =
          A ++ (text.kinds (readLines (text.block name ifaceType properties).flatten) ++ C) := by
  obtain ⟨A, C, hlines, hend, hC, hin⟩ := findInterfacesEnd_spec htext file
  have hnewline : ∀ raw ∈ text.block name ifaceType properties, ∃ init, raw = init ++ ['\n'] := by
    refine forall_mem_cons.2 ⟨⟨_, headLine_eq name⟩, forall_mem_cons.2
      ⟨⟨_, propertyLine_eq _ _ _⟩, forall_mem_cons.2 ⟨⟨_, propertyLine_eq _ _ _⟩, ?_⟩⟩⟩
    intro raw hraw
    obtain ⟨p, -, rfl⟩ := List.mem_map.1 hraw
    exact ⟨_, propertyLine_eq _ _ _⟩
  obtain ⟨init, hblock⟩ := exists_flatten_newline (cons_ne_nil _ _) hnewline
  refine ⟨text.kinds A, text.kinds C, by rw [hlines, kinds_append], hC, hin, ?_⟩
  rw [added, addInterfaceSection, hend, hlines, take_left, drop_left]
  exact kinds_insert hlines hblock

/-- By itself, the section is read from within the section of the interfaces. -/
theorem interfaces_alone (htext : text.Reads) (file : List Char) :
    text.interfaces (text.kinds (readLines ("[interfaces]\n".toList ++ file))) =
      (Scan.read text ⟨[], true, false, none⟩ (text.kinds (readLines file))).finish := by
  have hreturn : '\r' ∉ "[interfaces]\n".toList := by decide
  have hline : Lines.Terminated "[interfaces]\n".toList :=
    ⟨"[interfaces]".toList, by decide, rfl⟩
  have hkind : text.kindOf "[interfaces]\n".toList = .sectionHead "interfaces".toList :=
    kindOf_eq_sectionHead_iff.2 (by decide)
  have hname : text.isInterfaces "interfaces".toList = true := by
    refine htext.interfaces _ (by decide) ?_
    rw [Text.namesInterfaces,
      show PyStr.strip "interfaces".toList = "interfaces".toList by decide,
      htext.lower_interfaces]
    exact decide_eq_true rfl
  have hstep : Scan.stepKind text {} 0 (.sectionHead "interfaces".toList) =
      ⟨[], true, false, none⟩ := congrArg (Scan.mk [] · false none) hname
  rw [readLines, Lines.universal_append_of_not_mem hreturn,
    Lines.split_append_of_terminated hline, Text.kinds, map_cons, hkind]
  exact congrArg (fun s => (Scan.read text s _).finish) hstep

theorem toLower_eq_iff {c d : Char} (hc : c ∈ ['\n', '\r', '[', '#']) : d.toLower = c ↔ d = c := by
  obtain ⟨hself, hlow⟩ : c.toLower = c ∧ c.val.toNat < 97 := by
    simp only [mem_cons, not_mem_nil, or_false] at hc
    rcases hc with rfl | rfl | rfl | rfl
    all_goals exact ⟨rfl, by decide⟩
  constructor
  · intro h
    rw [Char.toLower] at h
    split at h
    · next hd =>
      -- A capital becomes a small letter, and `c` is none.
      have hA := UInt32.le_iff_toNat_le.1 hd.1
      have hZ := UInt32.le_iff_toNat_le.1 hd.2
      have hval : d.val.toNat + 32 = c.val.toNat := by
        rw [← h, UInt32.toNat_add]
        have h32 : ('a'.val - 'A'.val).toNat = 32 := rfl
        have h90 : 'Z'.val.toNat = 90 := rfl
        omega
      have h65 : 'A'.val.toNat = 65 := rfl
      omega
    · exact h
  · rintro rfl
    exact hself

theorem mem_strip {c : Char} {t : List Char} (hc : c ∈ t) (hspace : PyStr.isSpace c = false) :
    c ∈ PyStr.strip t := by
  have hl : c ∈ PyStr.lstrip t := by
    rw [← takeWhile_append_dropWhile (p := PyStr.isSpace) (l := t), mem_append] at hc
    refine hc.resolve_left fun h => ?_
    exact Bool.false_ne_true (hspace.symm.trans (mem_takeWhile_imp h))
  have hr : c ∈ PyStr.strip t ++ (PyStr.lstrip t).rtakeWhile PyStr.isSpace := by
    rw [PyStr.strip, PyStr.rstrip, rdropWhile_append_rtakeWhile]
    exact hl
  refine (mem_append.1 hr).resolve_right fun h => ?_
  exact Bool.false_ne_true (hspace.symm.trans (mem_rtakeWhile_imp h))

theorem ascii_reads : ascii.Reads where
  scalar_onLine value h := h.of_subset fun _ hc =>
    (List.takeWhile_prefix _).subset (mem_of_mem_strip hc)
  mem_lower c hc t := by
    have hc : c ∈ ['\n', '\r', '[', '#'] := mem_append_left ['#'] hc
    rw [show ascii.lower t = t.map Char.toLower from rfl, List.mem_map]
    simp only [toLower_eq_iff hc, exists_eq_right]
  lower_interfaces := by decide
  interfaces name _ hname := by
    rw [Text.namesInterfaces, decide_eq_true_eq] at hname
    have hno : ∀ c ∈ name, decide (c ≠ '#') = true := by
      intro c hc
      refine decide_eq_true ?_
      rintro rfl
      have hmem := List.mem_map_of_mem (f := Char.toLower) (mem_strip hc rfl)
      rw [show (PyStr.strip name).map Char.toLower = "interfaces".toList from hname] at hmem
      exact absurd hmem (by decide)
    rw [Text.isInterfaces, decide_eq_true_eq]
    change (PyStr.strip (name.takeWhile (· ≠ '#'))).map Char.toLower = _
    rw [takeWhile_eq_self_iff.2 hno]
    exact hname

/-- A file with a section after that of the interfaces. -/
def sectionFile : List Char :=
  "[reticulum]\n[Interfaces] # all\n[[A]]\n  type = X\n\n[logging]\n  loglevel = 4\n".toList

end ReticulumPi.Rns
