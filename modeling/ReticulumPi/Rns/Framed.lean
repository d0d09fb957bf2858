import ReticulumPi.Rns.Added
import ReticulumPi.Rns.Property

/-!
# One interface among the others

The lines of a file around an interface (`exists_around`): those before it, its head, the
lines directly under it, and those from where it ends, which is where the editor stops to
look too (`directLines_eq`). What the parser makes of the other interfaces does not depend on
the lines directly under the head (`interfaces_around`), and what it makes of these is the
last value that each key has (`get?_entry`).
-/

namespace ReticulumPi.Rns

open List

variable {text : Text} {raw : List Char} {lines : List (List Char)}

/-! ## Lines with their newlines -/

variable {c : Char}

theorem lstrip_append_newline (hc : isNewline c = true) (t : List Char) :
    PyStr.lstrip t = [] ∧ PyStr.lstrip (t ++ [c]) = [] ∨
      PyStr.lstrip t ≠ [] ∧ PyStr.lstrip (t ++ [c]) = PyStr.lstrip t ++ [c] := by
  induction t with
  | nil =>
    refine .inl ⟨rfl, ?_⟩
    rw [PyStr.lstrip, nil_append, dropWhile_cons, isSpace_of_isNewline hc]
    rfl
  | cons d t ih =>
    rw [cons_append, PyStr.lstrip, PyStr.lstrip, dropWhile_cons, dropWhile_cons]
    split_ifs
    · exact ih
    · exact .inr ⟨cons_ne_nil _ _, rfl⟩

theorem endsLine_append_newline (hc : isNewline c = true) (t : List Char) :
    endsLine (t ++ [c]) = endsLine t := by
  rw [endsLine, endsLine]
  rcases lstrip_append_newline hc t with ⟨h, h'⟩ | ⟨h, h'⟩
  · rw [h, h']
  · obtain ⟨d, l, hl⟩ := exists_cons_of_ne_nil h
    rw [h', hl]
    rfl

/-- A prefix of brackets is not longer with a newline after it. -/
theorem take_append_newline {d : Char} (hcd : c ≠ d) (t : List Char) (n : ℕ) :
    (t ++ [c]).take n = List.replicate n d ↔ t.take n = List.replicate n d := by
  rcases Nat.lt_or_ge t.length n with hn | hn
  · refine iff_of_false (fun h => ?_) fun h => ?_
    · have hmem : c ∈ (t ++ [c]).take n := by
        rw [take_of_length_le (by simpa using hn)]
        exact mem_append_right _ (mem_singleton_self c)
      rw [h] at hmem
      exact hcd (eq_of_mem_replicate hmem)
    · have := congrArg List.length h
      rw [length_take, length_replicate] at this
      omega
  · rw [take_append_of_le_length hn]

theorem drop_append_newline {d : Char} {t : List Char} {n : ℕ}
    (h : t.take n = List.replicate n d) : (t ++ [c]).drop n = t.drop n ++ [c] := by
  refine drop_append_of_le_length ?_
  have := congrArg List.length h
  rw [length_take, length_replicate] at this
  omega

variable (hc : isNewline c = true)
include hc

theorem bracketed_append_newline {depth : ℕ}
    (hdepth : 0 < depth) (t : List Char) : bracketed depth (t ++ [c]) = bracketed depth t := by
  have hopen : c ≠ '[' := by rintro rfl; cases hc
  have hclose : c ≠ ']' := by rintro rfl; cases hc
  rw [bracketed, bracketed]
  rcases lstrip_append_newline hc t with ⟨h, h'⟩ | ⟨-, h'⟩
  · rw [h, h']
  · rw [h']
    set l := PyStr.lstrip t
    by_cases hl : l.take depth = List.replicate depth '['
    · rw [drop_append_newline hl]
      set r := l.drop depth
      set isName : Char → Bool := fun c => c ≠ '[' && c ≠ ']' with hname
      rcases hrest : r.dropWhile isName with _ | ⟨d, rest⟩
      · -- Without a closing bracket, there is none before the newline either.
        have hall : ∀ x ∈ r, isName x = true := dropWhile_eq_nil_iff.1 hrest
        have hnone : ([] : List Char).take depth ≠ List.replicate depth ']' := by
          intro h
          have := congrArg List.length h
          rw [take_nil, length_nil, length_replicate] at this
          omega
        have hrest' : (r ++ [c]).dropWhile isName = [] := by
          rw [dropWhile_append_of_pos hall, dropWhile_cons, if_pos (by
            rw [hname]
            simp [hopen, hclose])]
          rfl
        rw [hrest', if_neg fun h => hnone h.2.2.1, if_neg fun h => hnone h.2.2.1]
      · have hd : isName d = false := by
          have hne : r.dropWhile isName ≠ [] := by rw [hrest]; exact cons_ne_nil _ _
          have := head_dropWhile_not isName hne
          simpa only [hrest, head_cons] using this
        have hr : r ++ [c] = r.takeWhile isName ++ d :: (rest ++ [c]) := by
          rw [← cons_append, ← hrest, ← append_assoc, takeWhile_append_dropWhile]
        obtain ⟨htake, hdrop⟩ := takeWhile_append_cons
          (fun x hx => mem_takeWhile_imp (l := r) hx) hd (rest ++ [c])
        rw [← hr] at htake hdrop
        rw [htake, hdrop, ← cons_append]
        refine if_congr ?_ rfl rfl
        rw [take_append_newline hopen, take_append_newline hclose]
        refine and_congr_right fun _ => and_congr_right fun _ => and_congr_right fun hb => ?_
        rw [drop_append_newline hb, endsLine_append_newline hc]
    · rw [if_neg fun h => hl ((take_append_newline hopen _ _).1 h.1), if_neg fun h => hl h.1]

theorem closesNested_append_newline (t : List Char) : closesNested (t ++ [c]) = closesNested t := by
  have hclose : c ≠ ']' := by rintro rfl; cases hc
  induction t with
  | nil =>
    rw [nil_append, closesNested, closesNested]
    have hno : [c].take 3 ≠ "]]]".toList := fun h => by cases h
    rw [decide_eq_false hno]
    rfl
  | cons d t ih =>
    rw [cons_append, closesNested, closesNested, ih]
    refine congrArg (· || closesNested t) ?_
    have htake := take_append_newline hclose (d :: t) 3
    rw [cons_append] at htake
    by_cases hd : (d :: t).take 3 = List.replicate 3 ']'
    · have hdrop := drop_append_newline (c := c) hd
      rw [cons_append] at hdrop
      rw [hdrop, endsLine_append_newline hc,
        decide_eq_true (show (d :: (t ++ [c])).take 3 = "]]]".toList from htake.2 hd),
        decide_eq_true (show (d :: t).take 3 = "]]]".toList from hd)]
    · rw [decide_eq_false (show (d :: (t ++ [c])).take 3 ≠ "]]]".toList from mt htake.1 hd),
        decide_eq_false (show (d :: t).take 3 ≠ "]]]".toList from hd)]
      rfl

theorem isNested_append_newline (t : List Char) : isNested (t ++ [c]) = isNested t := by
  have hopen : c ≠ '[' := by rintro rfl; cases hc
  rw [isNested, isNested]
  rcases lstrip_append_newline hc t with ⟨h, h'⟩ | ⟨-, h'⟩
  · rw [h, h']
  · rw [h']
    set l := PyStr.lstrip t
    have htake := take_append_newline hopen l 3
    by_cases hl : l.take 3 = List.replicate 3 '['
    · rw [drop_append_newline hl, closesNested_append_newline hc,
        decide_eq_true (show (l ++ [c]).take 3 = "[[[".toList from htake.2 hl),
        decide_eq_true (show l.take 3 = "[[[".toList from hl)]
    · rw [decide_eq_false (show (l ++ [c]).take 3 ≠ "[[[".toList from mt htake.1 hl),
        decide_eq_false (show l.take 3 ≠ "[[[".toList from hl)]
      rfl

theorem strip_append_newline (t : List Char) : PyStr.strip (t ++ [c]) = PyStr.strip t := by
  rw [PyStr.strip, PyStr.strip]
  rcases lstrip_append_newline hc t with ⟨h, h'⟩ | ⟨-, h'⟩
  · rw [h, h']
  · rw [h', PyStr.rstrip, rdropWhile_concat_pos _ _ _ (isSpace_of_isNewline hc)]
    rfl

theorem keyValue_append_newline (t : List Char) : text.keyValue (t ++ [c]) = text.keyValue t := by
  have hkey : text.isKey c = true := by
    rw [Text.isKey, isSpace_of_isNewline hc, Bool.or_true]
  rw [Text.keyValue, Text.keyValue]
  rcases lstrip_append_newline hc t with ⟨h, h'⟩ | ⟨-, h'⟩
  · rw [h, h']
  · rw [h']
    set l := PyStr.lstrip t
    rcases hrest : l.dropWhile text.isKey with _ | ⟨d, rest⟩
    · have hall : ∀ x ∈ l, text.isKey x = true := dropWhile_eq_nil_iff.1 hrest
      have hrest' : (l ++ [c]).dropWhile text.isKey = [] := by
        rw [dropWhile_append_of_pos hall, dropWhile_cons, if_pos hkey]
        rfl
      simp only [hrest']
    · have hd : text.isKey d = false := by
        have hne : l.dropWhile text.isKey ≠ [] := by rw [hrest]; exact cons_ne_nil _ _
        have := head_dropWhile_not text.isKey hne
        simpa only [hrest, head_cons] using this
      have hl : l ++ [c] = l.takeWhile text.isKey ++ d :: (rest ++ [c]) := by
        rw [← cons_append, ← hrest, ← append_assoc, takeWhile_append_dropWhile]
      obtain ⟨htake, hdrop⟩ := takeWhile_append_cons
        (fun x hx => mem_takeWhile_imp (l := l) hx) hd (rest ++ [c])
      rw [← hl] at htake hdrop
      simp only [htake, hdrop]
      by_cases hequals : d = '='
      · subst hequals
        simp only [strip_append_newline hc]
      · split
        · next heq => exact absurd (List.cons.inj heq).1 hequals
        · split
          · next heq => exact absurd (List.cons.inj heq).1 hequals
          · rfl

omit hc

/-- The newlines at the end of a line make no difference. -/
theorem of_append_newline {α : Type*} {f : List Char → α}
    (h : ∀ c, isNewline c = true → ∀ t, f (t ++ [c]) = f t) (raw : List Char) :
    f (rstripNewline raw) = f raw := by
  induction raw using List.reverseRecOn with
  | nil => rfl
  | append_singleton t c ih =>
    rw [rstripNewline, rdropWhile_concat]
    split_ifs with hc
    · exact ih.trans (h c hc t).symm
    · rfl

theorem bracketed_rstripNewline {depth : ℕ} (hdepth : 0 < depth) (raw : List Char) :
    bracketed depth (rstripNewline raw) = bracketed depth raw :=
  of_append_newline (f := bracketed depth) (fun _ hc => bracketed_append_newline hc hdepth) raw

theorem isNested_rstripNewline (raw : List Char) : isNested (rstripNewline raw) = isNested raw :=
  of_append_newline (f := isNested) (fun _ hc => isNested_append_newline hc) raw

theorem keyValue_rstripNewline (raw : List Char) :
    text.keyValue (rstripNewline raw) = text.keyValue raw :=
  of_append_newline (f := text.keyValue) (fun _ hc => keyValue_append_newline hc) raw

/-! ## Where the editor looks -/

theorem endsInterface_iff (text : Text) :
    endsInterface raw = true ↔
      (∃ name, text.kindOf raw = .sectionHead name) ∨ ∃ name, text.kindOf raw = .subsectionHead name := by
  rw [endsInterface, ← bracketed_rstripNewline Nat.two_pos, ← bracketed_rstripNewline Nat.one_pos,
    Text.kindOf]
  cases bracketed 1 (rstripNewline raw) with
  | some name => simp
  | none =>
    cases bracketed 2 (rstripNewline raw) with
    | some name => simp
    | none =>
      dsimp only
      split_ifs
      · simp
      · split <;> simp

theorem isNested_of_kindOf (h : text.kindOf raw = .nestedHead) : isNested raw = true := by
  rw [← isNested_rstripNewline]
  rw [Text.kindOf] at h
  split at h
  · cases h
  · split at h
    · cases h
    · split_ifs at h with hnested
      · exact hnested
      · split at h <;> cases h

/-- A line directly under a head, as the editor sees it. -/
theorem keyValue_of_isDirect (h : (text.kindOf raw).IsDirect) :
    endsInterface raw = false ∧ isNested raw = false ∧
      (text.keyValue raw = none ∧ text.kindOf raw = .other ∨
        ∃ key value, text.keyValue raw = some (key, value) ∧
          text.kindOf raw = .property key value) := by
  refine ⟨?_, ?_⟩
  · rw [Bool.eq_false_iff]
    intro hends
    rcases (endsInterface_iff text).1 hends with ⟨name, hname⟩ | ⟨name, hname⟩ <;>
      rw [hname] at h <;> exact h.elim
  · rw [← isNested_rstripNewline, ← keyValue_rstripNewline]
    cases hone : bracketed 1 (rstripNewline raw) with
    | some name =>
      rw [kindOf_eq_sectionHead_iff.2 hone] at h
      exact h.elim
    | none =>
      cases htwo : bracketed 2 (rstripNewline raw) with
      | some name =>
        rw [Text.kindOf, hone, htwo] at h
        exact h.elim
      | none =>
        cases hnested : isNested (rstripNewline raw) with
        | true =>
          rw [Text.kindOf, hone, htwo, hnested] at h
          exact h.elim
        | false =>
          refine ⟨rfl, ?_⟩
          rw [Text.kindOf, hone, htwo, hnested]
          cases text.keyValue (rstripNewline raw) with
          | none => exact .inl ⟨rfl, rfl⟩
          | some p => exact .inr ⟨p.1, p.2, rfl, rfl⟩

/-- What ends the lines directly under a head. -/
def EndsDirect (text : Text) (after : List (List Char)) : Prop :=
  ∀ line ∈ after.head?, ¬ (text.kindOf line).IsDirect

/-- The editor looks at the lines directly under the head. -/
theorem directLines_eq {before direct after : List (List Char)} (head : List Char)
    (hdirect : ∀ line ∈ direct, (text.kindOf line).IsDirect) (hafter : EndsDirect text after) :
    directLines (before ++ head :: (direct ++ after)) before.length = direct := by
  have hdrop : (before ++ head :: (direct ++ after)).drop (before.length + 1) = direct ++ after := by
    rw [← drop_drop, drop_left]
    rfl
  rw [directLines, hdrop, takeWhile_append_of_pos fun line hline => by
      rw [(keyValue_of_isDirect (hdirect line hline)).1]; rfl,
    takeWhile_append_of_pos fun line hline => by
      rw [(keyValue_of_isDirect (hdirect line hline)).2.1]; rfl]
  refine (congrArg (direct ++ ·) ?_).trans (append_nil direct)
  rcases after with _ | ⟨line, after⟩
  · rfl
  · have hline := hafter line rfl
    cases hkind : text.kindOf line with
    | sectionHead name =>
      rw [takeWhile_cons, (endsInterface_iff text).2 (.inl ⟨name, hkind⟩)]
      rfl
    | subsectionHead name =>
      rw [takeWhile_cons, (endsInterface_iff text).2 (.inr ⟨name, hkind⟩)]
      rfl
    | nestedHead =>
      rw [takeWhile_cons]
      split_ifs
      · rw [takeWhile_cons, isNested_of_kindOf hkind]
        rfl
      · rfl
    | property key value | other =>
      rw [hkind] at hline
      exact (hline trivial).elim

/-! ## The interfaces around -/

/-- What follows in a section nested in the interface, or from its end on, adds interfaces
    that do not depend on it. -/
theorem exists_read_nested (text : Text) (kinds : List Kind) :
    ∃ rest, ∀ before e,
      (Scan.read text ⟨before, true, true, some e⟩ kinds).finish = before ++ e :: rest := by
  induction kinds with
  | nil => exact ⟨[], fun before e => rfl⟩
  | cons kind kinds ih =>
    have hfresh : ∀ (t : Scan) (before : List InterfaceEntry) (e : InterfaceEntry),
        (Scan.read text { t with interfaces := (before ++ [e]) ++ t.interfaces } kinds).finish =
          before ++ e :: (t.read text kinds).finish := by
      intro t before e
      rw [Scan.read_prefix, Scan.finish, Scan.finish]
      simp only [append_assoc, cons_append, nil_append]
    cases kind with
    | sectionHead name =>
      refine ⟨((({} : Scan).stepKind text 0 (.sectionHead name)).read text kinds).finish,
        fun before e => ?_⟩
      have h := hfresh (({} : Scan).stepKind text 0 (.sectionHead name)) before e
      refine Eq.trans ?_ h
      rw [Scan.read, foldl_cons]
      exact congrArg (fun l => (Scan.read text (Scan.mk l _ false none) kinds).finish)
        (append_nil _).symm
    | subsectionHead name =>
      refine ⟨(Scan.read text ⟨[], true, false, some { name := text.scalar name, startLine := 0 }⟩
        kinds).finish, fun before e => ?_⟩
      have h := hfresh ⟨[], true, false, some { name := text.scalar name, startLine := 0 }⟩ before e
      refine Eq.trans ?_ h
      rw [Scan.read, foldl_cons]
      exact congrArg (fun l => (Scan.read text (Scan.mk l true false _) kinds).finish)
        (append_nil _).symm
    | nestedHead | property key value | other =>
      obtain ⟨rest, hrest⟩ := ih
      exact ⟨rest, fun before e => hrest before e⟩

/-- The other interfaces do not depend on the lines directly under a head. -/
theorem interfaces_around (text : Text) {before after : List Kind}
    (hbefore : (Scan.read text {} before).inInterfaces = true)
    (hafter : ∀ kind ∈ after.head?, ¬ kind.IsDirect) :
    ∃ rest, ∀ name direct, (∀ kind ∈ direct, kind.IsDirect) →
      text.interfaces (before ++ .subsectionHead name :: (direct ++ after)) =
        (Scan.read text {} before).finish ++ text.entry name direct :: rest := by
  set s := Scan.read text {} before with hs
  have hread : ∀ name direct, (∀ kind ∈ direct, kind.IsDirect) →
      text.interfaces (before ++ .subsectionHead name :: (direct ++ after)) =
        (Scan.read text ⟨s.finish, true, false, some (text.entry name direct)⟩ after).finish := by
    intro name direct hdirect
    rw [Text.interfaces, ← cons_append, Scan.read_append, Scan.read_append, ← hs,
      read_block hbefore hdirect]
  rcases after with _ | ⟨kind, after⟩
  · exact ⟨[], fun name direct hdirect => hread name direct hdirect⟩
  · -- What ends the lines directly under the head is passed over in a nested section too.
    have hnested : ∀ e, (Scan.read text ⟨s.finish, true, false, some e⟩ (kind :: after)) =
        Scan.read text ⟨s.finish, true, true, some e⟩ (kind :: after) := by
      intro e
      have hkind := hafter kind rfl
      rw [Scan.read, Scan.read, foldl_cons, foldl_cons]
      cases kind with
      | property key value | other => exact (hkind trivial).elim
      | _ => rfl
    obtain ⟨rest, hrest⟩ := exists_read_nested text (kind :: after)
    exact ⟨rest, fun name direct hdirect => by rw [hread name direct hdirect, hnested, hrest]⟩

/-- The blocks up to one of them end in the section of the interfaces. -/
theorem run_take {s : Scan} {blocks : List Block} (hblocks : Blocks text s.inInterfaces blocks)
    {k : ℕ} {block : Block} (hblock : blocks[k]? = some block) (idx : ℕ) :
    block.Valid text ∧
      (s.run text idx ((blocks.take k).flatMap Block.lines)).inInterfaces = true ∧
        (s.run text idx ((blocks.take k).flatMap Block.lines)).finish.length =
          s.finish.length + k := by
  induction blocks generalizing s k idx with
  | nil => cases hblock
  | cons first blocks ih =>
    obtain ⟨hin, hvalid, inInterfaces, hout, hblocks⟩ := hblocks
    rcases k with _ | k
    · cases hblock
      exact ⟨hvalid, hin, rfl⟩
    · obtain ⟨hfinish, hin'⟩ := Scan.run_block hvalid hin hout
      rw [← hin'] at hblocks
      obtain ⟨hvalid', hrun, hlength⟩ := ih hblocks hblock (idx + first.lines.length)
      rw [take_succ_cons, flatMap_cons, Scan.run_append]
      refine ⟨hvalid', hrun, hlength.trans ?_⟩
      rw [hfinish, length_append, length_singleton]
      omega

/-- An interface stands in the section of the interfaces, at the line that was parsed. -/
theorem exists_around {file : List Char} {k : ℕ} {e : InterfaceEntry}
    (he : (parseFile text file)[k]? = some e) :
    ∃ before head direct after, readLines file = before ++ head :: (direct ++ after) ∧
      e.startLine = before.length ∧ (∃ name, text.kindOf head = .subsectionHead name) ∧
        (∀ line ∈ direct, (text.kindOf line).IsDirect) ∧ EndsDirect text after ∧
          (Scan.read text {} (text.kinds before)).inInterfaces = true ∧
            (Scan.read text {} (text.kinds before)).finish.length = k := by
  obtain ⟨⟨before, blocks⟩, hdoc, hlines⟩ : ∃ doc : Document, doc.Valid text ∧
      doc.lines = readLines file := exists_document text (readLines file)
  rw [parseFile, ← hlines, parseRnsConfig_document hdoc, getElem?_entries] at he
  obtain ⟨block, hblock, rfl⟩ := Option.map_eq_some_iff.1 he
  obtain ⟨inInterfaces, hout, hblocks⟩ := hdoc
  obtain ⟨hfinish, -, hin⟩ := Scan.run_outside (s := {}) rfl hout
  rw [← hin] at hblocks
  obtain ⟨hvalid, hrun, hlength⟩ := run_take hblocks hblock (0 + before.length)
  rw [← Scan.run_append] at hrun hlength
  have hlike : (({} : Scan).run text 0 (linesBefore before blocks k)).Like
      (Scan.read text {} (text.kinds (linesBefore before blocks k))) :=
    Scan.Like.run ⟨.nil, rfl, rfl, .nil⟩ 0 _
  refine ⟨linesBefore before blocks k, block.head, block.direct,
    block.nested ++ (block.rest ++ (blocks.drop (k + 1)).flatMap Block.lines), ?_, ?_,
    hvalid.head, hvalid.direct, ?_, ?_, ?_⟩
  · rw [← hlines, document_lines_eq hblock, Block.lines]
    simp only [cons_append, append_assoc]
  · rw [Block.entry_startLine, linesBefore, length_append]
  · -- The lines directly under the head end with a nested section, a section, or the next
    -- interface.
    intro line hline
    rcases hnested : block.nested with _ | ⟨l, nested⟩
    · rcases hrest : block.rest with _ | ⟨l, rest⟩
      · rw [hnested, hrest, nil_append, nil_append] at hline
        rcases hdrop : blocks.drop (k + 1) with _ | ⟨next, tail⟩
        · rw [hdrop] at hline
          cases hline
        · rw [hdrop, flatMap_cons, Block.lines] at hline
          cases hline
          have hnext : blocks[k + 1]? = some next := by
            rw [← Nat.add_zero (k + 1), ← getElem?_drop, hdrop]
            rfl
          obtain ⟨hvalid', -⟩ := run_take hblocks hnext 0
          obtain ⟨name, hname⟩ := hvalid'.head
          rw [hname]
          exact id
      · rw [hnested, hrest] at hline
        cases hline
        obtain ⟨name, hname⟩ := hvalid.rest line (by rw [hrest]; rfl)
        rw [hname]
        exact id
    · rw [hnested] at hline
      cases hline
      rw [hvalid.nestedHead line (by rw [hnested]; rfl)]
      exact id
  · exact hlike.inInterfaces.trans hrun
  · rw [← hlike.finish.length_eq]
    refine hlength.trans ?_
    rw [hfinish]
    exact Nat.zero_add k

/-! ## The value of a key -/

/-- The value that a line of the kind gives to a key. -/
def Text.valueFor (text : Text) (q : List Char) : Kind → Option (List Char)
  | .property key value =>
    if text.lower (PyStr.strip key) = q then some (text.scalar value) else none
  | _ => none

theorem addProperty_properties (e : InterfaceEntry) (idx : ℕ) (key val : List Char) :
    (e.addProperty text idx key val).properties = e.properties.set key val := by
  by_cases hkey : key ∈ flagKeys
  · rw [InterfaceEntry.addProperty_flag hkey]
  · rw [InterfaceEntry.addProperty_other hkey]

/-- A key has the last of its values. -/
theorem get?_entry (name : List Char) (direct : List Kind) (q : List Char) :
    (text.entry name direct).properties.get? q =
      (direct.filterMap (text.valueFor q)).getLast? := by
  have hfold : ∀ e : InterfaceEntry,
      (direct.foldl (.addKind text) e).properties.get? q =
        (direct.filterMap (text.valueFor q)).getLast?.or (e.properties.get? q) := by
    induction direct with
    | nil => exact fun _ => rfl
    | cons kind direct ih =>
      intro e
      rw [foldl_cons, ih, filterMap_cons]
      cases kind with
      | property key value =>
        simp only [InterfaceEntry.addKind, Text.valueFor, addProperty_properties, Dict.get?_set]
        by_cases hq : text.lower (PyStr.strip key) = q
        · rw [if_pos hq, if_pos hq.symm, getLast?_cons]
          cases (direct.filterMap (text.valueFor q)).getLast? <;> rfl
        · rw [if_neg hq, if_neg (Ne.symm hq)]
      | _ => rfl
  rw [Text.entry, hfold, Dict.get?_empty, Option.or_none]

theorem name_entry (name : List Char) (direct : List Kind) :
    (text.entry name direct).name = text.scalar name := by
  have hfold : ∀ e : InterfaceEntry,
      (direct.foldl (.addKind text) e).name = e.name := by
    induction direct with
    | nil => exact fun _ => rfl
    | cons kind direct ih =>
      intro e
      rw [foldl_cons, ih]
      cases kind with
      | property key value =>
        rw [InterfaceEntry.addKind]
        by_cases hkey : text.lower (PyStr.strip key) ∈ flagKeys
        · rw [InterfaceEntry.addProperty_flag hkey]
        · rw [InterfaceEntry.addProperty_other hkey]
      | _ => rfl
  exact hfold _

end ReticulumPi.Rns
