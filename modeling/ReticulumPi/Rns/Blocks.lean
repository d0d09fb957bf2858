import ReticulumPi.Rns.Config

/-!
# The blocks of a Reticulum config file

Any lines are some before the first interface, and then a block for each
interface (`exists_document`): its head, the lines directly under it, those of
the sections nested in it, and those that belong to no interface any more, from
the head of a section on. The parser makes an entry of each block out of its head
and its direct lines alone (`parseRnsConfig_document`), so that an edit within the
direct lines of one block is one of its entry.
-/

namespace ReticulumPi.Rns

open List

variable (text : Text)

/-- A block of an interface. -/
structure Block where
  head : List Char
  direct : List (List Char)
  nested : List (List Char)
  rest : List (List Char)

def Block.lines (block : Block) : List (List Char) :=
  block.head :: (block.direct ++ (block.nested ++ block.rest))

/-- A line within an interface. -/
def Kind.IsBody : Kind → Prop
  | .sectionHead _ | .subsectionHead _ => False
  | _ => True

/-- A line directly under the head of an interface. -/
def Kind.IsDirect : Kind → Prop
  | .property _ _ | .other => True
  | _ => False

/-- The name of a section is `interfaces`. -/
def Text.isInterfaces (name : List Char) : Bool :=
  text.casefold (text.scalar name) = "interfaces".toList

/-- Whether the parser is in the section of the interfaces after lines among which no
    interface begins. -/
def Text.outside : Bool → List (List Char) → Option Bool
  | inInterfaces, [] => some inInterfaces
  | inInterfaces, raw :: lines => match text.kindOf raw with
    | .sectionHead name => outside (text.isInterfaces name) lines
    | .subsectionHead _ => if inInterfaces then none else outside inInterfaces lines
    | _ => outside inInterfaces lines

/-- A block whose lines are what they are named. -/
structure Block.Valid (block : Block) : Prop where
  head : ∃ name, text.kindOf block.head = .subsectionHead name
  direct : ∀ line ∈ block.direct, (text.kindOf line).IsDirect
  nestedHead : ∀ line ∈ block.nested.head?, text.kindOf line = .nestedHead
  nested : ∀ line ∈ block.nested, (text.kindOf line).IsBody
  rest : ∀ line ∈ block.rest.head?, ∃ name, text.kindOf line = .sectionHead name

/-- Blocks that come one after the other, from within the section of the interfaces
    or from outside of it. -/
def Blocks : Bool → List Block → Prop
  | _, [] => True
  | inInterfaces, block :: blocks => inInterfaces = true ∧ block.Valid text ∧
    ∃ inInterfaces', text.outside true block.rest = some inInterfaces' ∧
      Blocks inInterfaces' blocks

/-- The lines before the first interface, and the blocks. -/
structure Document where
  before : List (List Char)
  blocks : List Block

def Document.lines (doc : Document) : List (List Char) :=
  doc.before ++ doc.blocks.flatMap Block.lines

def Document.Valid (doc : Document) : Prop :=
  ∃ inInterfaces, text.outside false doc.before = some inInterfaces ∧
    Blocks text inInterfaces doc.blocks

/-! ## Any lines are a document -/

section Exists

variable (lines : List (List Char))

/-- Lines that begin with the end of an interface. -/
def Ends : Prop :=
  ∃ rest blocks inInterfaces, lines = rest ++ blocks.flatMap Block.lines ∧
    (∀ line ∈ rest.head?, ∃ name, text.kindOf line = .sectionHead name) ∧
      text.outside true rest = some inInterfaces ∧ Blocks text inInterfaces blocks

/-- Lines that begin within a section nested in an interface. -/
def Nested : Prop :=
  ∃ nested rest, lines = nested ++ rest ∧ (∀ line ∈ nested, (text.kindOf line).IsBody) ∧
    Ends text rest

/-- Lines that begin directly under the head of an interface. -/
def Direct : Prop :=
  ∃ direct nested rest, lines = direct ++ (nested ++ rest) ∧
    (∀ line ∈ direct, (text.kindOf line).IsDirect) ∧
      (∀ line ∈ nested.head?, text.kindOf line = .nestedHead) ∧
        (∀ line ∈ nested, (text.kindOf line).IsBody) ∧ Ends text rest

/-- Lines that begin outside of any interface. -/
def Outside (inInterfaces : Bool) (lines : List (List Char)) : Prop :=
  ∃ before blocks inInterfaces', lines = before ++ blocks.flatMap Block.lines ∧
    text.outside inInterfaces before = some inInterfaces' ∧ Blocks text inInterfaces' blocks

variable {text} {line name : List Char} {lines : List (List Char)}

theorem Direct.block (h : Direct text lines)
    (hline : text.kindOf line = .subsectionHead name) :
    ∃ blocks, line :: lines = blocks.flatMap Block.lines ∧ Blocks text true blocks := by
  obtain ⟨direct, nested, rest, rfl, hdirect, hhead, hnested, rest, blocks, b, rfl, hrest, hout,
    hblocks⟩ := h
  refine ⟨⟨line, direct, nested, rest⟩ :: blocks, ?_, rfl,
    ⟨⟨name, hline⟩, hdirect, hhead, hnested, hrest⟩, b, hout, hblocks⟩
  rw [flatMap_cons, Block.lines]
  simp only [append_assoc, cons_append]

theorem Ends.of_section (hline : text.kindOf line = .sectionHead name)
    (h : Outside text (text.isInterfaces name) lines) :
    Ends text (line :: lines) := by
  obtain ⟨before, blocks, b, rfl, hout, hblocks⟩ := h
  refine ⟨line :: before, blocks, b, rfl, ?_, ?_, hblocks⟩
  · rintro l hl
    cases hl
    exact ⟨name, hline⟩
  · rw [Text.outside, hline]
    exact hout

theorem Ends.of_subsection (hline : text.kindOf line = .subsectionHead name)
    (h : Direct text lines) : Ends text (line :: lines) := by
  obtain ⟨blocks, hlines, hblocks⟩ := h.block hline
  refine ⟨[], blocks, true, hlines, ?_, rfl, hblocks⟩
  rintro l hl
  cases hl

theorem Ends.nested (h : Ends text lines) : Nested text lines :=
  ⟨[], lines, rfl, fun _ h => absurd h not_mem_nil, h⟩

theorem Nested.cons (h : Nested text lines) (hline : (text.kindOf line).IsBody) :
    Nested text (line :: lines) := by
  obtain ⟨nested, rest, rfl, hnested, hrest⟩ := h
  exact ⟨line :: nested, rest, rfl, forall_mem_cons.2 ⟨hline, hnested⟩, hrest⟩

theorem Ends.direct (h : Ends text lines) : Direct text lines := by
  refine ⟨[], [], lines, rfl, fun _ h => absurd h not_mem_nil, ?_,
    fun _ h => absurd h not_mem_nil, h⟩
  rintro l hl
  cases hl

theorem Nested.direct (h : Nested text lines) (hline : text.kindOf line = .nestedHead) :
    Direct text (line :: lines) := by
  have hbody : (text.kindOf line).IsBody := by rw [hline]; trivial
  obtain ⟨nested, rest, rfl, hnested, hrest⟩ := h
  refine ⟨[], line :: nested, rest, rfl, fun _ h => absurd h not_mem_nil, ?_,
    forall_mem_cons.2 ⟨hbody, hnested⟩, hrest⟩
  rintro l hl
  cases hl
  exact hline

theorem Direct.cons (h : Direct text lines) (hline : (text.kindOf line).IsDirect) :
    Direct text (line :: lines) := by
  obtain ⟨direct, nested, rest, rfl, hdirect, h⟩ := h
  exact ⟨line :: direct, nested, rest, rfl, forall_mem_cons.2 ⟨hline, hdirect⟩, h⟩

theorem Outside.cons {inInterfaces inInterfaces' : Bool}
    (h : Outside text inInterfaces' lines)
    (hline : ∀ before, text.outside inInterfaces (line :: before) =
      text.outside inInterfaces' before) : Outside text inInterfaces (line :: lines) := by
  obtain ⟨before, blocks, b, rfl, hout, hblocks⟩ := h
  exact ⟨line :: before, blocks, b, rfl, (hline before).trans hout, hblocks⟩

/-- Wherever lines begin, they go on as one of these. -/
theorem nested_direct_outside (lines : List (List Char)) :
    Nested text lines ∧ Direct text lines ∧
      ∀ inInterfaces, Outside text inInterfaces lines := by
  induction lines with
  | nil =>
    have hends : Ends text [] := by
      refine ⟨[], [], true, rfl, ?_, rfl, trivial⟩
      rintro l hl
      cases hl
    exact ⟨hends.nested, hends.direct, fun b => ⟨[], [], b, rfl, rfl, trivial⟩⟩
  | cons line lines ih =>
    obtain ⟨hnested, hdirect, houtside⟩ := ih
    cases hkind : text.kindOf line with
    | sectionHead name =>
      have hends := Ends.of_section hkind (houtside _)
      refine ⟨hends.nested, hends.direct, fun b => (houtside (text.isInterfaces name)).cons ?_⟩
      intro before
      rw [Text.outside, hkind]
    | subsectionHead name =>
      have hends := Ends.of_subsection hkind hdirect
      refine ⟨hends.nested, hends.direct, fun b => ?_⟩
      rcases b with _ | _
      · refine (houtside false).cons fun before => ?_
        rw [Text.outside, hkind]
        rfl
      · obtain ⟨blocks, hlines, hblocks⟩ := hdirect.block hkind
        exact ⟨[], blocks, true, hlines, rfl, hblocks⟩
    | nestedHead =>
      refine ⟨hnested.cons (by rw [hkind]; trivial), hnested.direct hkind,
        fun b => (houtside b).cons fun before => ?_⟩
      rw [Text.outside, hkind]
    | property key value | other =>
      refine ⟨hnested.cons (by rw [hkind]; trivial), hdirect.cons (by rw [hkind]; trivial),
        fun b => (houtside b).cons fun before => ?_⟩
      rw [Text.outside, hkind]

end Exists

theorem exists_document (lines : List (List Char)) :
    ∃ doc : Document, doc.Valid text ∧ doc.lines = lines := by
  obtain ⟨before, blocks, b, rfl, hout, hblocks⟩ := (nested_direct_outside lines).2.2 false
  exact ⟨⟨before, blocks⟩, ⟨b, hout, hblocks⟩, rfl⟩

/-! ## Parsing a document -/

/-- A line directly under the head of an interface. -/
def InterfaceEntry.addLine (e : InterfaceEntry) (idx : ℕ) (raw : List Char) : InterfaceEntry :=
  match text.kindOf raw with
  | .property key value =>
    e.addProperty text idx (text.lower (PyStr.strip key)) (text.scalar value)
  | _ => e

/-- The lines from a number on. -/
def InterfaceEntry.addLines (e : InterfaceEntry) (idx : ℕ) : List (List Char) → InterfaceEntry
  | [] => e
  | raw :: lines => (e.addLine text idx raw).addLines (idx + 1) lines

/-- The name at the head of an interface. -/
def Text.headName (line : List Char) : List Char :=
  match text.kindOf line with
  | .subsectionHead name => text.scalar name
  | _ => []

/-- The entry of a block that begins at a line. -/
def Block.entry (block : Block) (idx : ℕ) : InterfaceEntry :=
  InterfaceEntry.addLines text { name := text.headName block.head, startLine := idx } (idx + 1)
    block.direct

/-- The entries of blocks from a line on. -/
def entries (idx : ℕ) : List Block → List InterfaceEntry
  | [] => []
  | block :: blocks => block.entry text idx :: entries (idx + block.lines.length) blocks

attribute [local simp] Scan.step

variable {text} {s : Scan}

theorem Scan.run_append (s : Scan) (idx : ℕ) (lines lines' : List (List Char)) :
    s.run text idx (lines ++ lines') = (s.run text idx lines).run text (idx + lines.length) lines' := by
  induction lines generalizing s idx with
  | nil => rfl
  | cons line lines ih =>
    rw [cons_append, Scan.run, Scan.run, ih, length_cons, Nat.add_right_comm,
      Nat.add_assoc]

/-- Outside of any interface, nothing is added. -/
theorem Scan.run_outside {lines : List (List Char)} {inInterfaces : Bool} {idx : ℕ}
    (hcurrent : s.current = none) (h : text.outside s.inInterfaces lines = some inInterfaces) :
    (s.run text idx lines).finish = s.finish ∧ (s.run text idx lines).current = none ∧
      (s.run text idx lines).inInterfaces = inInterfaces := by
  induction lines generalizing s idx with
  | nil => exact ⟨rfl, hcurrent, Option.some.inj h⟩
  | cons line lines ih =>
    have hstep : (s.step text idx line).finish = s.finish ∧ (s.step text idx line).current = none ∧
        text.outside (s.step text idx line).inInterfaces lines = some inInterfaces := by
      obtain ⟨interfaces, inInterfaces, inNested, current⟩ := s
      cases hcurrent
      rw [Text.outside] at h
      rw [Scan.step]
      cases hkind : text.kindOf line with
      | sectionHead name =>
        rw [hkind] at h
        exact ⟨append_nil _, rfl, h⟩
      | subsectionHead name =>
        rw [hkind] at h
        rcases inInterfaces with _ | _
        · exact ⟨rfl, rfl, h⟩
        · cases h
      | nestedHead | other =>
        rw [hkind] at h
        rcases inInterfaces with _ | _ <;> exact ⟨rfl, rfl, h⟩
      | property key value =>
        rw [hkind] at h
        rcases inInterfaces with _ | _ <;> rcases inNested with _ | _ <;> exact ⟨rfl, rfl, h⟩
    obtain ⟨hfinish, hnone, hout⟩ := hstep
    obtain ⟨hfinish', hnone', hout'⟩ := ih hnone hout
    exact ⟨hfinish'.trans hfinish, hnone', hout'⟩

variable {interfaces : List InterfaceEntry} {lines : List (List Char)} {idx : ℕ}

/-- Directly under the head of an interface, lines are added to its entry. -/
theorem Scan.run_direct (hlines : ∀ line ∈ lines, (text.kindOf line).IsDirect)
    (e : InterfaceEntry) :
    Scan.run text ⟨interfaces, true, false, some e⟩ idx lines =
      ⟨interfaces, true, false, some (e.addLines text idx lines)⟩ := by
  induction lines generalizing e idx with
  | nil => rfl
  | cons line lines ih =>
    obtain ⟨hline, hlines⟩ := forall_mem_cons.1 hlines
    have hstep : Scan.step text ⟨interfaces, true, false, some e⟩ idx line =
        ⟨interfaces, true, false, some (e.addLine text idx line)⟩ := by
      rw [Scan.step, InterfaceEntry.addLine]
      cases hkind : text.kindOf line with
      | property key value => rfl
      | other => rfl
      | _ =>
        rw [hkind] at hline
        exact hline.elim
    rw [Scan.run, hstep, ih hlines]
    rfl

/-- In a nested section, lines are passed over. -/
theorem Scan.run_nested {current : Option InterfaceEntry}
    (hlines : ∀ line ∈ lines, (text.kindOf line).IsBody) :
    Scan.run text ⟨interfaces, true, true, current⟩ idx lines =
      ⟨interfaces, true, true, current⟩ := by
  induction lines generalizing idx with
  | nil => rfl
  | cons line lines ih =>
    obtain ⟨hline, hlines⟩ := forall_mem_cons.1 hlines
    have hstep : Scan.step text ⟨interfaces, true, true, current⟩ idx line =
        ⟨interfaces, true, true, current⟩ := by
      rw [Scan.step]
      cases hkind : text.kindOf line with
      | nestedHead | property key value | other => rfl
      | _ =>
        rw [hkind] at hline
        exact hline.elim
    rw [Scan.run, hstep, ih hlines]

/-- From the end of an interface on, its entry is among those that are finished. -/
theorem Scan.run_rest {current : Option InterfaceEntry} {inNested inInterfaces : Bool}
    (hhead : ∀ line ∈ lines.head?, ∃ name, text.kindOf line = .sectionHead name)
    (hout : text.outside true lines = some inInterfaces) :
    (Scan.run text ⟨interfaces, true, inNested, current⟩ idx lines).finish =
        interfaces ++ current.toList ∧
      (Scan.run text ⟨interfaces, true, inNested, current⟩ idx lines).inInterfaces =
        inInterfaces := by
  rcases lines with _ | ⟨line, lines⟩
  · exact ⟨rfl, Option.some.inj hout⟩
  · obtain ⟨name, hline⟩ := hhead line rfl
    have hstep : Scan.step text ⟨interfaces, true, inNested, current⟩ idx line =
        ⟨interfaces ++ current.toList, text.isInterfaces name, false, none⟩ := by
      rw [Scan.step, hline]
      rfl
    rw [Text.outside, hline] at hout
    obtain ⟨hfinish, -, hin⟩ := Scan.run_outside (s := ⟨interfaces ++ current.toList,
      text.isInterfaces name, false, none⟩) rfl hout
    rw [Scan.run, hstep]
    exact ⟨hfinish.trans (append_nil _), hin⟩

/-- A block adds its entry. -/
theorem Scan.run_block {block : Block} (hblock : block.Valid text) {inInterfaces : Bool}
    (hin : s.inInterfaces = true) (hout : text.outside true block.rest = some inInterfaces) :
    (s.run text idx block.lines).finish = s.finish ++ [block.entry text idx] ∧
      (s.run text idx block.lines).inInterfaces = inInterfaces := by
  obtain ⟨interfaces, _, inNested, current⟩ := s
  cases hin
  obtain ⟨name, hhead⟩ := hblock.head
  have hstep : Scan.step text ⟨interfaces, true, inNested, current⟩ idx block.head =
      ⟨interfaces ++ current.toList, true, false,
        some { name := text.headName block.head, startLine := idx }⟩ := by
    rw [Scan.step, Text.headName, hhead]
    rfl
  rw [Block.lines, Scan.run, hstep, Scan.run_append, Scan.run_direct hblock.direct,
    Scan.run_append]
  rcases hnested : block.nested with _ | ⟨line, nested⟩
  · exact Scan.run_rest hblock.rest hout
  · have hline : text.kindOf line = .nestedHead := hblock.nestedHead line (by rw [hnested]; rfl)
    have hbody : ∀ line ∈ nested, (text.kindOf line).IsBody := fun l hl =>
      hblock.nested l (by rw [hnested]; exact mem_cons_of_mem _ hl)
    have hstep' : ∀ {interfaces current i}, Scan.step text ⟨interfaces, true, false, current⟩ i line =
        ⟨interfaces, true, true, current⟩ := by
      intro interfaces current i
      rw [Scan.step, hline]
      rfl
    rw [Scan.run, hstep', Scan.run_nested hbody]
    exact Scan.run_rest hblock.rest hout

theorem Scan.run_blocks {blocks : List Block} (hblocks : Blocks text s.inInterfaces blocks) :
    (s.run text idx (blocks.flatMap Block.lines)).finish = s.finish ++ entries text idx blocks := by
  induction blocks generalizing s idx with
  | nil => exact (append_nil _).symm
  | cons block blocks ih =>
    obtain ⟨hin, hblock, inInterfaces, hout, hblocks⟩ := hblocks
    obtain ⟨hfinish, hin'⟩ := Scan.run_block hblock hin hout
    rw [← hin'] at hblocks
    rw [flatMap_cons, Scan.run_append, ih hblocks, hfinish, entries, append_assoc]
    rfl

/-- The list of interfaces of a document is that of its blocks. -/
theorem parseRnsConfig_document {doc : Document} (hdoc : doc.Valid text) :
    parseRnsConfig text doc.lines = entries text doc.before.length doc.blocks := by
  obtain ⟨inInterfaces, hout, hblocks⟩ := hdoc
  obtain ⟨hfinish, -, hin⟩ := Scan.run_outside (s := {}) rfl hout
  rw [← hin] at hblocks
  rw [parseRnsConfig, Document.lines, Scan.run_append, Scan.run_blocks hblocks, hfinish,
    Nat.zero_add]
  rfl

end ReticulumPi.Rns
