import ReticulumPi.Rns.Edits

/-!
# What the parser makes of the lines

Of each line the parser sees its kind alone, and not the lines of no kind: two texts of
the same kinds (`Text.kinds`) have the same interfaces but for the numbers of their lines
(`parse_same`), those read from the kinds (`Text.interfaces`). The interfaces of a text
that is put together are those of its parts, where the parts begin with the head of a
section (`finish_read_of_section`) or of an interface (`finish_read_block`).
-/

namespace ReticulumPi.Rns

open List

variable (text : Text)

/-- The parser goes over a line of a kind. -/
def Scan.stepKind (s : Scan) (idx : ℕ) : Kind → Scan
  | .sectionHead name =>
    { interfaces := s.finish
      inInterfaces := text.casefold (text.scalar name) = "interfaces".toList }
  | .subsectionHead name =>
    if s.inInterfaces then
      { s with
        interfaces := s.finish
        current := some { name := text.scalar name, startLine := idx }
        inNested := false }
    else s
  | .nestedHead => if s.inInterfaces then { s with inNested := true } else s
  | .property key value =>
    if s.inInterfaces ∧ s.inNested = false then
      { s with
        current := s.current.map fun e =>
          e.addProperty text idx (text.lower (PyStr.strip key)) (text.scalar value) }
    else s
  | .other => s

/-- The kinds of the lines, those of no kind left out. -/
def Text.kinds (lines : List (List Char)) : List Kind :=
  (lines.map text.kindOf).filter (· ≠ .other)

def Scan.read (s : Scan) (kinds : List Kind) : Scan :=
  kinds.foldl (fun s kind => s.stepKind text 0 kind) s

/-- The interfaces, as if they were all on one line. -/
def Text.interfaces (kinds : List Kind) : List InterfaceEntry :=
  (({} : Scan).read text kinds).finish

/-- Two scans that have found the same on different lines. -/
structure Scan.Like (s t : Scan) : Prop where
  interfaces : List.Forall₂ InterfaceEntry.Same s.interfaces t.interfaces
  inInterfaces : t.inInterfaces = s.inInterfaces
  inNested : t.inNested = s.inNested
  current : List.Forall₂ InterfaceEntry.Same s.current.toList t.current.toList

variable {text} {s t : Scan} {e e' e'' : InterfaceEntry} {lines lines' : List (List Char)}
  {kinds kinds' : List Kind}

/-! ## Lines and kinds -/

theorem InterfaceEntry.Same.symm (h : e.Same e') : e'.Same e :=
  ⟨h.name.symm, h.ifaceType.symm, h.properties.symm, h.enabled.symm⟩

theorem InterfaceEntry.Same.trans (h : e.Same e') (h' : e'.Same e'') : e.Same e'' :=
  ⟨h'.name.trans h.name, h'.ifaceType.trans h.ifaceType, h'.properties.trans h.properties,
    h'.enabled.trans h.enabled⟩

/-- Lists of entries that are the same as those of a third. -/
theorem same_of_same {l l' l'' : List InterfaceEntry}
    (h : Forall₂ InterfaceEntry.Same l l') (h' : Forall₂ InterfaceEntry.Same l l'') :
    Forall₂ InterfaceEntry.Same l' l'' := by
  induction h generalizing l'' with
  | nil =>
    rw [forall₂_nil_left_iff.1 h']
    exact .nil
  | cons hab _ ih =>
    obtain ⟨e, l, hae, hl, rfl⟩ := forall₂_cons_left_iff.1 h'
    exact .cons (hab.symm.trans hae) (ih hl)

theorem InterfaceEntry.Same.addProperty (h : e.Same e') (idx idx' : ℕ) (key val : List Char) :
    (e.addProperty text idx key val).Same (e'.addProperty text idx' key val) := by
  by_cases hkey : key ∈ flagKeys
  · rw [addProperty_flag hkey, addProperty_flag hkey, h.properties, h.enabled]
    exact ⟨h.name, h.ifaceType, rfl, rfl⟩
  · rw [addProperty_other hkey, addProperty_other hkey, h.properties, h.ifaceType]
    exact ⟨h.name, rfl, rfl, h.enabled⟩

theorem Scan.step_eq (s : Scan) (idx : ℕ) (raw : List Char) :
    s.step text idx raw = s.stepKind text idx (text.kindOf raw) := by
  rw [Scan.step]
  cases text.kindOf raw <;> rcases s with ⟨_, _ | _, _ | _, _⟩ <;> rfl

theorem Scan.Like.finish (h : s.Like t) :
    Forall₂ InterfaceEntry.Same s.finish t.finish :=
  rel_append h.interfaces h.current

theorem Scan.Like.stepKind (h : s.Like t) (idx idx' : ℕ) (kind : Kind) :
    (s.stepKind text idx kind).Like (t.stepKind text idx' kind) := by
  cases kind with
  | sectionHead name => exact ⟨h.finish, rfl, rfl, .nil⟩
  | subsectionHead name =>
    rw [Scan.stepKind, Scan.stepKind, h.inInterfaces]
    split_ifs
    · exact ⟨h.finish, rfl, rfl, .cons ⟨rfl, rfl, rfl, rfl⟩ .nil⟩
    · exact h
  | nestedHead =>
    rw [Scan.stepKind, Scan.stepKind, h.inInterfaces]
    split_ifs
    · exact ⟨h.interfaces, rfl, rfl, h.current⟩
    · exact h
  | property key value =>
    rw [Scan.stepKind, Scan.stepKind, h.inInterfaces, h.inNested]
    split_ifs
    · refine ⟨h.interfaces, rfl, rfl, ?_⟩
      have hcurrent := h.current
      rcases hs : s.current with _ | e <;> rcases ht : t.current with _ | e' <;>
        rw [hs, ht] at hcurrent
      · exact .nil
      · cases hcurrent
      · cases hcurrent
      · obtain ⟨he, -⟩ := forall₂_cons.1 hcurrent
        exact .cons (he.addProperty idx idx' _ _) .nil
    · exact h
  | other => exact h

theorem Scan.Like.run (h : s.Like t) (idx : ℕ) (lines : List (List Char)) :
    (s.run text idx lines).Like (t.read text (text.kinds lines)) := by
  induction lines generalizing s t idx with
  | nil => exact h
  | cons raw lines ih =>
    rw [Scan.run, Scan.step_eq, Text.kinds, map_cons, filter_cons]
    split_ifs with hkind
    · exact ih (h.stepKind idx 0 _) (idx + 1)
    · -- A line of no kind is passed over.
      have hother : text.kindOf raw = .other := by simpa using hkind
      rw [hother]
      exact ih h (idx + 1)

/-- The interfaces are those of the kinds of the lines. -/
theorem parse_same (lines : List (List Char)) :
    Forall₂ InterfaceEntry.Same (text.interfaces (text.kinds lines))
      (parseRnsConfig text lines) := by
  have hlike : Scan.Like {} {} := ⟨.nil, rfl, rfl, .nil⟩
  exact ((hlike.run 0 lines).finish.imp fun _ _ h => h.symm).flip

theorem kinds_append : text.kinds (lines ++ lines') = text.kinds lines ++ text.kinds lines' := by
  rw [Text.kinds, map_append, filter_append]
  rfl

theorem exists_of_mem_right {α β : Type*} {R : α → β → Prop} {l : List α} {l' : List β} {b : β}
    (h : Forall₂ R l l') (hb : b ∈ l') : ∃ a ∈ l, R a b := by
  induction h with
  | nil => cases hb
  | cons hab _ ih =>
    rcases mem_cons.1 hb with rfl | hb
    · exact ⟨_, mem_cons_self, hab⟩
    · obtain ⟨a, ha, hR⟩ := ih hb
      exact ⟨a, mem_cons_of_mem _ ha, hR⟩

theorem exists_of_append_left {α β : Type*} {R : α → β → Prop} {l₁ l₂ : List α} {l' : List β}
    (h : Forall₂ R (l₁ ++ l₂) l') :
    ∃ l₁' l₂', l' = l₁' ++ l₂' ∧ Forall₂ R l₁ l₁' ∧ Forall₂ R l₂ l₂' := by
  induction l₁ generalizing l' with
  | nil => exact ⟨[], l', rfl, .nil, h⟩
  | cons a l₁ ih =>
    obtain ⟨b, l', hab, hl, rfl⟩ := forall₂_cons_left_iff.1 h
    obtain ⟨l₁', l₂', rfl, h₁, h₂⟩ := ih hl
    exact ⟨b :: l₁', l₂', rfl, .cons hab h₁, h₂⟩

/-! ## Parts -/

theorem Scan.read_append (s : Scan) (kinds kinds' : List Kind) :
    s.read text (kinds ++ kinds') = (s.read text kinds).read text kinds' :=
  foldl_append

/-- What has been found before is kept, and read nowhere. -/
theorem Scan.read_prefix (before : List InterfaceEntry) (s : Scan) (kinds : List Kind) :
    Scan.read text { s with interfaces := before ++ s.interfaces } kinds =
      { s.read text kinds with interfaces := before ++ (s.read text kinds).interfaces } := by
  induction kinds generalizing s with
  | nil => rfl
  | cons kind kinds ih =>
    have hstep : Scan.stepKind text { s with interfaces := before ++ s.interfaces } 0 kind =
        { s.stepKind text 0 kind with
          interfaces := before ++ (s.stepKind text 0 kind).interfaces } := by
      cases kind with
      | sectionHead name => simp only [Scan.stepKind, Scan.finish, append_assoc]
      | subsectionHead name =>
        rw [Scan.stepKind, Scan.stepKind]
        split_ifs
        · simp only [Scan.finish, append_assoc]
        · rfl
      | nestedHead | property key value =>
        rw [Scan.stepKind, Scan.stepKind]
        split_ifs <;> rfl
      | other => rfl
    rw [Scan.read, Scan.read, foldl_cons, foldl_cons, hstep]
    exact ih _

/-- The head of a section ends what comes before it. -/
theorem finish_read_of_section (hkinds : ∀ kind ∈ kinds.head?, ∃ name, kind = .sectionHead name)
    (s : Scan) : (s.read text kinds).finish = s.finish ++ text.interfaces kinds := by
  rcases kinds with _ | ⟨kind, kinds⟩
  · exact (append_nil _).symm
  · obtain ⟨name, rfl⟩ := hkinds kind rfl
    have hprefix : Scan.read text { ({} : Scan).stepKind text 0 (.sectionHead name) with
        interfaces := s.finish ++ (({} : Scan).stepKind text 0 (.sectionHead name)).interfaces }
        kinds = _ := Scan.read_prefix s.finish _ kinds
    rw [Text.interfaces, Scan.read, Scan.read, foldl_cons, foldl_cons]
    have hstep : s.stepKind text 0 (.sectionHead name) =
        { ({} : Scan).stepKind text 0 (.sectionHead name) with
          interfaces := s.finish ++ (({} : Scan).stepKind text 0 (.sectionHead name)).interfaces } :=
      congrArg (Scan.mk · _ false none) (append_nil _).symm
    rw [hstep]
    refine (congrArg Scan.finish hprefix).trans ?_
    rw [Scan.finish, append_assoc]
    rfl

/-- Outside of the section of the interfaces, nothing is read. -/
theorem read_of_outside (hs : s.inInterfaces = false)
    (hkinds : ∀ kind ∈ kinds, ∀ name, kind ≠ .sectionHead name) : s.read text kinds = s := by
  induction kinds with
  | nil => rfl
  | cons kind kinds ih =>
    obtain ⟨hkind, hkinds⟩ := forall_mem_cons.1 hkinds
    have hstep : s.stepKind text 0 kind = s := by
      cases kind with
      | sectionHead name => exact (hkind name rfl).elim
      | other => rfl
      | _ =>
        rw [Scan.stepKind, hs]
        rfl
    rw [Scan.read, foldl_cons, hstep]
    exact ih hkinds

/-- Without a head of a section or of an interface, none begins and none ends. -/
theorem read_body (hkinds : ∀ kind ∈ kinds, kind.IsBody) :
    (s.read text kinds).interfaces = s.interfaces ∧
      (s.read text kinds).inInterfaces = s.inInterfaces ∧
        (s.read text kinds).current.isSome = s.current.isSome := by
  induction kinds generalizing s with
  | nil => exact ⟨rfl, rfl, rfl⟩
  | cons kind kinds ih =>
    obtain ⟨hkind, hkinds⟩ := forall_mem_cons.1 hkinds
    obtain ⟨hinterfaces, hin, hcurrent⟩ := ih (s := s.stepKind text 0 kind) hkinds
    have hstep : (s.stepKind text 0 kind).interfaces = s.interfaces ∧
        (s.stepKind text 0 kind).inInterfaces = s.inInterfaces ∧
          (s.stepKind text 0 kind).current.isSome = s.current.isSome := by
      cases kind with
      | sectionHead name | subsectionHead name => exact hkind.elim
      | nestedHead =>
        rw [Scan.stepKind]
        split_ifs <;> exact ⟨rfl, rfl, rfl⟩
      | property key value =>
        rw [Scan.stepKind]
        split_ifs
        · exact ⟨rfl, rfl, Option.isSome_map⟩
        · exact ⟨rfl, rfl, rfl⟩
      | other => exact ⟨rfl, rfl, rfl⟩
    rw [Scan.read, foldl_cons]
    exact ⟨hinterfaces.trans hstep.1, hin.trans hstep.2.1, hcurrent.trans hstep.2.2⟩

/-- A line directly under the head of an interface. -/
def InterfaceEntry.addKind (text : Text) (e : InterfaceEntry) : Kind → InterfaceEntry
  | .property key value =>
    e.addProperty text 0 (text.lower (PyStr.strip key)) (text.scalar value)
  | _ => e

/-- The interface of a name with lines directly under its head. -/
def Text.entry (text : Text) (name : List Char) (kinds : List Kind) : InterfaceEntry :=
  kinds.foldl (InterfaceEntry.addKind text) { name := text.scalar name, startLine := 0 }

/-- An interface is added at the end. -/
theorem read_block {name : List Char} (hs : s.inInterfaces = true)
    (hkinds : ∀ kind ∈ kinds, kind.IsDirect) :
    s.read text (.subsectionHead name :: kinds) =
      ⟨s.finish, true, false, some (text.entry name kinds)⟩ := by
  have hhead : s.stepKind text 0 (.subsectionHead name) =
      ⟨s.finish, true, false, some { name := text.scalar name, startLine := 0 }⟩ := by
    rw [Scan.stepKind, if_pos hs, hs]
  have hdirect : ∀ (kinds : List Kind) (e : InterfaceEntry), (∀ kind ∈ kinds, kind.IsDirect) →
      Scan.read text ⟨s.finish, true, false, some e⟩ kinds =
        ⟨s.finish, true, false, some (kinds.foldl (InterfaceEntry.addKind text) e)⟩ := by
    intro kinds
    induction kinds with
    | nil => exact fun _ _ => rfl
    | cons kind kinds ih =>
      intro e h
      obtain ⟨hkind, htail⟩ := forall_mem_cons.1 h
      rw [Scan.read, foldl_cons, foldl_cons]
      cases kind with
      | property key value | other => exact ih _ htail
      | _ => exact hkind.elim
  rw [Scan.read, foldl_cons, hhead]
  exact hdirect kinds _ hkinds

end ReticulumPi.Rns
