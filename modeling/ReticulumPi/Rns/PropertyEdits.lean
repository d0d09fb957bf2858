import ReticulumPi.Rns.Framed

/-!
# What an edited property is read as

`property_edits_iff` says exactly when a property that is set or removed is read so, with all
else as it was. A key that several lines set has the value of the last, but it is the first
that is edited or removed (`duplicate_not_removed`); a line that is inserted after the last
line of a file, without a newline there, becomes part of that line.
-/

namespace ReticulumPi.Rns

variable {text : Text} {raw line name key value : List Char} {lines : List (List Char)}
  {file file' : List Char} {k : ℕ} {e e' : InterfaceEntry}

/-! ## The lines that set a key -/

/-- The value that a line gives to a key. -/
def Text.lineValue (text : Text) (q line : List Char) : Option (List Char) :=
  text.valueFor q (text.kindOf line)

theorem filterMap_kinds (q : List Char) (lines : List (List Char)) :
    (text.kinds lines).filterMap (text.valueFor q) = lines.filterMap (text.lineValue q) := by
  induction lines with
  | nil => rfl
  | cons raw lines ih =>
    rw [List.filterMap_cons, Text.lineValue]
    by_cases hother : text.kindOf raw = .other
    · rw [kinds_cons_other hother, ih, hother]
      rfl
    · have hcons : text.kinds (raw :: lines) = text.kindOf raw :: text.kinds lines := by
        rw [Text.kinds, List.map_cons, List.filter_cons, if_pos (by simpa using hother), Text.kinds]
      rw [hcons, List.filterMap_cons, ih]

theorem setsKey_eq (hline : (text.kindOf line).IsDirect) :
    text.setsKey key line = (text.lineValue (text.lower key) line).isSome := by
  rw [Text.setsKey, Text.lineValue]
  obtain ⟨-, -, ⟨hkv, hkind⟩ | ⟨k, v, hkv, hkind⟩⟩ := keyValue_of_isDirect hline
  · rw [hkv, hkind]
    rfl
  · rw [hkv, hkind, Text.valueFor]
    split_ifs with hk
    · exact decide_eq_true hk
    · exact decide_eq_false hk

/-- The first of the lines that meet a condition, if there is one. -/
theorem findIdx?_cases {α : Type*} (p : α → Bool) (l : List α) :
    (l.findIdx? p = none ∧ l.filter p = []) ∨
      ∃ a x b, l = a ++ x :: b ∧ l.findIdx? p = some a.length ∧ p x = true ∧
        (∀ y ∈ a, p y = false) ∧ l.filter p = x :: b.filter p := by
  induction l with
  | nil => exact .inl ⟨rfl, rfl⟩
  | cons x l ih =>
    by_cases hx : p x = true
    · refine .inr ⟨[], x, l, rfl, ?_, hx, nofun, ?_⟩
      · rw [List.findIdx?_cons, hx]
        rfl
      · rw [List.filter_cons_of_pos hx]
    · rw [List.findIdx?_cons, if_neg hx, List.filter_cons_of_neg hx]
      rcases ih with ⟨hfind, hfilter⟩ | ⟨a, y, b, rfl, hfind, hy, ha, hfilter⟩
      · exact .inl ⟨by rw [hfind]; rfl, hfilter⟩
      · exact .inr ⟨x :: a, y, b, rfl, by rw [hfind]; rfl, hy,
          List.forall_mem_cons.2 ⟨Bool.eq_false_iff.2 hx, ha⟩, hfilter⟩

/-- Lines that do not set the key give it no value. -/
theorem filterMap_lineValue_eq_nil {a : List (List Char)}
    (hdirect : ∀ line ∈ a, (text.kindOf line).IsDirect)
    (h : ∀ line ∈ a, text.setsKey key line = false) :
    a.filterMap (text.lineValue (text.lower key)) = [] := by
  refine List.filterMap_eq_nil_iff.2 fun line hline => ?_
  have := (setsKey_eq (hdirect line hline)).symm.trans (h line hline)
  rwa [Option.isSome_eq_false_iff, Option.isNone_iff_eq_none] at this

/-! ## Reading again -/

theorem readLines_flatten (h : Lines.IsLines lines) (hreturn : ∀ line ∈ lines, '\r' ∉ line) :
    readLines lines.flatten = lines := by
  have hno : '\r' ∉ lines.flatten := by
    intro hmem
    obtain ⟨line, hline, hmem⟩ := List.mem_flatten.1 hmem
    exact hreturn line hline hmem
  rw [readLines, Lines.universal_of_not_mem hno, Lines.split_flatten h]

theorem return_not_mem_readLines (hline : line ∈ readLines file) : '\r' ∉ line := fun h =>
  Lines.not_mem_universal false file (by
    rw [← Lines.flatten_split (Lines.universal false file)]
    exact List.mem_flatten.2 ⟨line, hline, h⟩)

theorem of_getElem? {α β : Type*} {R : α → β → Prop} {l : List α} {l' : List β} {j : ℕ} {a : α}
    {b : β} (h : List.Forall₂ R l l') (ha : l[j]? = some a) (hb : l'[j]? = some b) : R a b := by
  induction h generalizing j with
  | nil => cases ha
  | cons hab _ ih =>
    rcases j with _ | j
    · cases ha
      cases hb
      exact hab
    · exact ih ha hb

/-- Files that differ in the lines directly under one head differ in its properties alone. -/
theorem changesOnly_iff {before after direct direct' : List Kind}
    {changed : Dict (List Char) (List Char) → Dict (List Char) (List Char) → Prop}
    (hbefore : (Scan.read text {} before).inInterfaces = true)
    (hk : (Scan.read text {} before).finish.length = k)
    (hafter : ∀ kind ∈ after.head?, ¬ kind.IsDirect)
    (hfile : text.kinds (readLines file) = before ++ .subsectionHead name :: (direct ++ after))
    (hfile' : text.kinds (readLines file') = before ++ .subsectionHead name :: (direct' ++ after))
    (hdirect : ∀ kind ∈ direct, kind.IsDirect) (hdirect' : ∀ kind ∈ direct', kind.IsDirect) :
    ChangesOnly text k file file' changed ↔
      changed (text.entry name direct).properties (text.entry name direct').properties := by
  obtain ⟨rest, hrest⟩ := interfaces_around text hbefore hafter
  have hsame : List.Forall₂ InterfaceEntry.Same _ (parseFile text file) := parse_same _
  have hsame' : List.Forall₂ InterfaceEntry.Same _ (parseFile text file') := parse_same _
  rw [hfile, hrest name direct hdirect] at hsame
  rw [hfile', hrest name direct' hdirect'] at hsame'
  set F := (Scan.read text {} before).finish
  have hget : ∀ i : InterfaceEntry, (F ++ i :: rest)[k]? = some i := fun i => by
    rw [← hk, List.getElem?_append_right (le_refl _), Nat.sub_self]
    rfl
  have hlength : (parseFile text file').length = (parseFile text file).length := by
    rw [← hsame.length_eq, ← hsame'.length_eq, List.length_append, List.length_append,
      List.length_cons, List.length_cons]
  have hlt : k < (parseFile text file).length := by
    rw [← hsame.length_eq, List.length_append, List.length_cons, hk]
    omega
  constructor
  · intro h
    obtain ⟨-, hchanged⟩ := h.edited _ _ (List.getElem?_eq_getElem hlt)
      (List.getElem?_eq_getElem (hlength ▸ hlt))
    have hfirst := of_getElem? hsame (hget _) (List.getElem?_eq_getElem hlt)
    have hsecond := of_getElem? hsame' (hget _) (List.getElem?_eq_getElem (hlength ▸ hlt))
    rwa [hfirst.properties, hsecond.properties] at hchanged
  · refine fun h => ⟨hlength, fun j e e' hj he he' => ?_, fun e e' he he' => ?_⟩
    · -- Another interface is read from the same lines in both files.
      have hother : ∀ i i' : InterfaceEntry, (F ++ i :: rest)[j]? = (F ++ i' :: rest)[j]? := by
        intro i i'
        rcases Nat.lt_or_ge j F.length with hlt | hge
        · rw [List.getElem?_append_left hlt, List.getElem?_append_left hlt]
        · rw [List.getElem?_append_right hge, List.getElem?_append_right hge]
          obtain ⟨d, hd⟩ := Nat.exists_eq_succ_of_ne_zero (n := j - F.length) (by omega)
          rw [hd]
          rfl
      have hjlt : j < (F ++ text.entry name direct :: rest).length := by
        rw [hsame.length_eq]
        exact (List.getElem?_eq_some_iff.1 he).1
      have hfirst := of_getElem? hsame (List.getElem?_eq_getElem hjlt) he
      have hsecond := of_getElem? hsame'
        ((hother _ _).trans (List.getElem?_eq_getElem hjlt)) he'
      exact hfirst.symm.trans hsecond
    · have hfirst := of_getElem? hsame (hget _) he
      have hsecond := of_getElem? hsame' (hget _) he'
      rw [hfirst.properties, hsecond.properties, hfirst.name, hsecond.name, name_entry, name_entry]
      exact ⟨rfl, h⟩

/-- The properties of the interface are those of the lines directly under its head. -/
theorem properties_eq {before after direct : List Kind}
    (hbefore : (Scan.read text {} before).inInterfaces = true)
    (hk : (Scan.read text {} before).finish.length = k)
    (hafter : ∀ kind ∈ after.head?, ¬ kind.IsDirect)
    (hfile : text.kinds (readLines file) = before ++ .subsectionHead name :: (direct ++ after))
    (hdirect : ∀ kind ∈ direct, kind.IsDirect) (he : (parseFile text file)[k]? = some e) :
    e.properties = (text.entry name direct).properties := by
  obtain ⟨rest, hrest⟩ := interfaces_around text hbefore hafter
  have hsame : List.Forall₂ InterfaceEntry.Same _ (parseFile text file) := parse_same _
  rw [hfile, hrest name direct hdirect] at hsame
  refine (of_getElem? hsame ?_ he).properties
  rw [← hk, List.getElem?_append_right (le_refl _), Nat.sub_self]
  rfl

/-- What is set is on one line, and the key has no brackets. -/
theorem ChangesOnly.onLine (htext : text.Reads) (he : (parseFile text file)[k]? = some e)
    (h : ChangesOnly text k file file' (IsSet text key (some value))) :
    (OnLine key ∧ '[' ∉ key ∧ OnLine value) ∧
      ∃ e', (parseFile text file')[k]? = some e' ∧
        e'.properties.get? (text.lower key) = some value := by
  have hlt : k < (parseFile text file').length := by
    rw [h.length]
    exact (List.getElem?_eq_some_iff.1 he).1
  have he' := List.getElem?_eq_getElem hlt
  obtain ⟨-, hset, -⟩ := h.edited e _ he he'
  obtain ⟨hkey, hbracket, hvalue⟩ :=
    (parseFile_onLine htext (List.getElem_mem hlt)).properties _ _ hset
  rw [OnLine.lower htext] at hkey
  rw [htext.mem_lower _ (by decide)] at hbracket
  exact ⟨⟨hkey, hbracket, hvalue⟩, _, he', hset⟩

/-! ## Around the interface -/

/-- The lines of the file around its interface `k`. -/
structure Around (text : Text) (file : List Char) (k : ℕ) (e : InterfaceEntry) (name : List Char)
    (before : List (List Char)) (head : List Char) (direct after : List (List Char)) : Prop where
  entry : (parseFile text file)[k]? = some e
  lines : readLines file = before ++ head :: (direct ++ after)
  startLine : e.startLine = before.length
  head : text.kindOf head = .subsectionHead name
  direct : ∀ line ∈ direct, (text.kindOf line).IsDirect
  after : EndsDirect text after
  inInterfaces : (Scan.read text {} (text.kinds before)).inInterfaces = true
  found : (Scan.read text {} (text.kinds before)).finish.length = k

theorem exists_isAround (he : (parseFile text file)[k]? = some e) :
    ∃ name before head direct after, Around text file k e name before head direct after := by
  obtain ⟨before, head, direct, after, hlines, hstart, ⟨name, hname⟩, hdirect, hafter, hin, hk⟩ :=
    exists_around he
  exact ⟨name, before, head, direct, after, he, hlines, hstart, hname, hdirect, hafter, hin, hk⟩

variable {before direct after direct' : List (List Char)} {head : List Char}

theorem kinds_head (h : text.kindOf head = .subsectionHead name) (lines : List (List Char)) :
    text.kinds (head :: lines) = .subsectionHead name :: text.kinds lines := by
  rw [Text.kinds, List.map_cons, h]
  rfl

theorem isDirect_kinds (h : ∀ line ∈ direct, (text.kindOf line).IsDirect) :
    ∀ kind ∈ text.kinds direct, kind.IsDirect := by
  intro kind hkind
  obtain ⟨line, hline, rfl⟩ := List.mem_map.1 (List.mem_of_mem_filter hkind)
  exact h line hline

theorem EndsDirect.kinds (h : EndsDirect text after) :
    ∀ kind ∈ (text.kinds after).head?, ¬ kind.IsDirect := by
  rcases after with _ | ⟨line, after⟩
  · exact nofun
  · have hline := h line rfl
    have hother : text.kindOf line ≠ .other := fun ho => hline (by rw [ho]; trivial)
    rw [Text.kinds, List.map_cons, List.filter_cons, if_pos (by simpa using hother)]
    rintro kind hkind
    cases hkind
    exact hline

namespace Around

variable (h : Around text file k e name before head direct after)

include h

theorem directLines : directLines (readLines file) e.startLine = direct := by
  rw [h.lines, h.startLine]
  exact directLines_eq head h.direct h.after

theorem kinds : text.kinds (readLines file) =
    text.kinds before ++ .subsectionHead name :: (text.kinds direct ++ text.kinds after) := by
  rw [h.lines, kinds_append, kinds_head h.head, kinds_append]

/-- What has become of the interface is told by the lines directly under its head. -/
theorem changesOnly_iff {direct' : List Kind} (hdirect' : ∀ kind ∈ direct', kind.IsDirect)
    (hfile' : text.kinds (readLines file') =
      text.kinds before ++ .subsectionHead name :: (direct' ++ text.kinds after))
    (key : List Char) (value : Option (List Char)) :
    ChangesOnly text k file file' (IsSet text key value) ↔
      (direct'.filterMap (text.valueFor (text.lower key))).getLast? = value ∧
        ∀ q, q ≠ text.lower key → (direct'.filterMap (text.valueFor q)).getLast? =
          (direct.filterMap (text.lineValue q)).getLast? := by
  rw [Rns.changesOnly_iff h.inInterfaces h.found h.after.kinds h.kinds hfile'
    (isDirect_kinds h.direct) hdirect', IsSet]
  simp only [get?_entry, filterMap_kinds]

theorem get?_properties (q : List Char) :
    e.properties.get? q = (direct.filterMap (text.lineValue q)).getLast? := by
  rw [properties_eq h.inInterfaces h.found h.after.kinds h.kinds (isDirect_kinds h.direct) h.entry,
    get?_entry, filterMap_kinds]

/-- The file with other lines directly under the head. -/
theorem changesOnly_lines_iff (hdirect' : ∀ line ∈ direct', (text.kindOf line).IsDirect)
    (hlines : Lines.IsLines (before ++ head :: (direct' ++ after)))
    (hreturn : ∀ line ∈ direct', '\r' ∉ line) (key : List Char) (value : Option (List Char)) :
    ChangesOnly text k file (before ++ head :: (direct' ++ after)).flatten
        (IsSet text key value) ↔
      (direct'.filterMap (text.lineValue (text.lower key))).getLast? = value ∧
        ∀ q, q ≠ text.lower key → (direct'.filterMap (text.lineValue q)).getLast? =
          (direct.filterMap (text.lineValue q)).getLast? := by
  have hno : ∀ line ∈ before ++ head :: (direct' ++ after), '\r' ∉ line := by
    intro line hline
    have hold : line ∈ before ++ head :: (direct ++ after) → '\r' ∉ line := fun hmem =>
      return_not_mem_readLines (h.lines ▸ hmem)
    simp only [List.mem_append, List.mem_cons] at hline hold
    tauto
  have hfile' : text.kinds (readLines (before ++ head :: (direct' ++ after)).flatten) =
      text.kinds before ++ .subsectionHead name :: (text.kinds direct' ++ text.kinds after) := by
    rw [readLines_flatten hlines hno, kinds_append, kinds_head h.head, kinds_append]
  rw [h.changesOnly_iff (isDirect_kinds hdirect') hfile' key value]
  simp only [filterMap_kinds]

end Around

/-! ## The first of the lines -/

/-- A line that sets the key, with those before it that do not. -/
structure First (text : Text) (key : List Char) (direct a : List (List Char)) (line : List Char)
    (b : List (List Char)) : Prop where
  eq : direct = a ++ line :: b
  sets : text.setsKey key line = true
  before : ∀ l ∈ a, text.setsKey key l = false

variable {a b : List (List Char)}

theorem First.property (h : First text key direct a line b)
    (hdirect : ∀ line ∈ direct, (text.kindOf line).IsDirect) :
    ∃ k v, text.kindOf line = .property k v ∧ text.lower (PyStr.strip k) = text.lower key := by
  have hline := hdirect line (by rw [h.eq]; exact List.mem_append_right _ List.mem_cons_self)
  have hsets := (setsKey_eq hline).symm.trans h.sets
  rw [Text.lineValue] at hsets
  cases hkind : text.kindOf line with
  | property k v =>
    rw [hkind, Text.valueFor] at hsets
    split_ifs at hsets with hk
    · exact ⟨k, v, rfl, hk⟩
    · cases hsets
  | _ =>
    rw [hkind] at hsets
    cases hsets

/-- The values of the key, with another line in the place of the first. -/
theorem First.filterMap (h : First text key direct a line b)
    (hdirect : ∀ line ∈ direct, (text.kindOf line).IsDirect) (lines : List (List Char)) :
    (a ++ (lines ++ b)).filterMap (text.lineValue (text.lower key)) =
      lines.filterMap (text.lineValue (text.lower key)) ++
        b.filterMap (text.lineValue (text.lower key)) := by
  have ha : ∀ l ∈ a, (text.kindOf l).IsDirect := fun l hl =>
    hdirect l (by rw [h.eq]; exact List.mem_append_left _ hl)
  rw [List.filterMap_append, List.filterMap_append, filterMap_lineValue_eq_nil ha h.before,
    List.nil_append]

/-- The lines after the first that set the key are those that give it a value. -/
theorem First.filter_eq_nil_iff (h : First text key direct a line b)
    (hdirect : ∀ line ∈ direct, (text.kindOf line).IsDirect) :
    b.filter (text.setsKey key) = [] ↔
      b.filterMap (text.lineValue (text.lower key)) = [] := by
  rw [List.filter_eq_nil_iff, List.filterMap_eq_nil_iff]
  refine forall₂_congr fun l hl => ?_
  have hl' : (text.kindOf l).IsDirect :=
    hdirect l (by rw [h.eq]; exact List.mem_append_right _ (List.mem_cons_of_mem _ hl))
  rw [setsKey_eq hl', Bool.not_eq_true, Option.isSome_eq_false_iff, Option.isNone_iff_eq_none]

/-- A line of the key gives no other key a value. -/
theorem lineValue_of_ne {k v q : List Char} (hkind : text.kindOf line = .property k v)
    (hk : text.lower (PyStr.strip k) = text.lower key) (hq : q ≠ text.lower key) :
    text.lineValue q line = none := by
  rw [Text.lineValue, hkind, Text.valueFor, hk]
  exact if_neg (Ne.symm hq)

theorem lineValue_self {k v : List Char} (hkind : text.kindOf line = .property k v)
    (hk : text.lower (PyStr.strip k) = text.lower key) :
    text.lineValue (text.lower key) line = some (text.scalar v) := by
  rw [Text.lineValue, hkind, Text.valueFor]
  exact if_pos hk

theorem isLines_of_mem {file : List Char} : Lines.IsLines (readLines file) :=
  Lines.isLines_split _

/-- A property is gone exactly if one line at most has set it. -/
theorem removesProperty_iff (he : (parseFile text file)[k]? = some e) (key : List Char) :
    ChangesOnly text k file (withoutProperty text file e key) (IsSet text key none) ↔
      CanRemove text (readLines file) e key := by
  obtain ⟨name, before, head, direct, after, h⟩ := exists_isAround he
  have hfileLines : Lines.IsLines (before ++ head :: (direct ++ after)) :=
    h.lines ▸ isLines_of_mem
  rw [CanRemove, h.directLines, withoutProperty, removeInterfaceProperty, h.directLines]
  rcases findIdx?_cases (text.setsKey key) direct with
    ⟨hfind, hfilter⟩ | ⟨a, line, b, hab, hfind, hsets, ha, hfilter⟩
  · -- Without the key, nothing is removed.
    rw [hfind, hfilter, h.lines]
    dsimp only
    rw [h.changesOnly_lines_iff h.direct hfileLines fun line hline =>
      return_not_mem_readLines (h.lines ▸ List.mem_append_right _
        (List.mem_cons_of_mem _ (List.mem_append_left _ hline)))]
    refine iff_of_true ⟨?_, fun _ _ => rfl⟩ (Nat.zero_le 1)
    rw [filterMap_lineValue_eq_nil h.direct fun line hline =>
      Bool.eq_false_iff.2 fun hs => List.filter_eq_nil_iff.1 hfilter line hline hs]
    rfl
  · have hfirst : First text key direct a line b := ⟨hab, hsets, ha⟩
    obtain ⟨k', v, hkind, hk'⟩ := hfirst.property h.direct
    have herase : (readLines file).eraseIdx (e.startLine + 1 + a.length) =
        before ++ head :: (a ++ b ++ after) := by
      have hsplit : readLines file = (before ++ head :: a) ++ line :: (b ++ after) := by
        rw [h.lines, hab]
        simp only [List.append_assoc, List.cons_append]
      have hlength : e.startLine + 1 + a.length = (before ++ head :: a).length := by
        rw [h.startLine, List.length_append, List.length_cons]
        omega
      rw [hsplit, hlength, List.eraseIdx_append_of_length_le (le_refl _), Nat.sub_self]
      simp only [List.eraseIdx_cons_zero, List.append_assoc, List.cons_append]
    have hmem : ∀ l ∈ a ++ b, l ∈ direct := by
      intro l hl
      rw [hab]
      rcases List.mem_append.1 hl with hl | hl
      · exact List.mem_append_left _ hl
      · exact List.mem_append_right _ (List.mem_cons_of_mem _ hl)
    have hlines : Lines.IsLines (before ++ head :: (a ++ b ++ after)) := by
      have hsplit : before ++ head :: (direct ++ after) =
          (before ++ head :: a) ++ ([line] ++ (b ++ after)) := by
        rw [hab]
        simp only [List.append_assoc, List.cons_append, List.nil_append]
      rw [hsplit, Lines.isLines_append] at hfileLines
      obtain ⟨hfront, hmiddle, hterm⟩ := hfileLines
      obtain ⟨-, hback, -⟩ := Lines.isLines_append.1 hmiddle
      have hjoin : before ++ head :: (a ++ b ++ after) =
          (before ++ head :: a) ++ (b ++ after) := by
        simp only [List.append_assoc, List.cons_append]
      rw [hjoin, Lines.isLines_append]
      exact ⟨hfront, hback, fun _ => hterm (List.cons_ne_nil _ _)⟩
    rw [hfind]
    dsimp only
    rw [herase, h.changesOnly_lines_iff (fun l hl => h.direct l (hmem l hl)) hlines fun l hl =>
      return_not_mem_readLines (h.lines ▸ List.mem_append_right _
        (List.mem_cons_of_mem _ (List.mem_append_left _ (hmem l hl))))]
    rw [hfilter, List.length_cons]
    have hvalues := hfirst.filterMap h.direct []
    rw [List.nil_append, List.filterMap_nil, List.nil_append] at hvalues
    rw [hvalues, List.getLast?_eq_none_iff, ← hfirst.filter_eq_nil_iff h.direct]
    constructor
    · rintro ⟨hnil, -⟩
      rw [hnil]
      rfl
    · intro hle
      refine ⟨List.eq_nil_of_length_eq_zero (by omega), fun q hq => ?_⟩
      rw [hab, List.filterMap_append, List.filterMap_append, List.filterMap_cons,
        lineValue_of_ne hkind hk' hq]

/-! ## Replacing a value -/

theorem mem_replacePropertyValue {c : Char} (hc : c ∈ replacePropertyValue line value) :
    c ∈ line ∨ c ∈ value := by
  rw [replacePropertyValue] at hc
  split at hc
  · exact .inl hc
  · next equals rest hdrop =>
    have hline : ∀ d ∈ equals :: rest, d ∈ line := fun d hd =>
      (List.dropWhile_suffix (p := (· ≠ '=')) (l := line)).subset (hdrop ▸ hd)
    rcases List.mem_append.1 hc with hc | hc
    · exact .inl ((List.takeWhile_prefix _).subset hc)
    · rcases List.mem_cons.1 hc with rfl | hc
      · exact .inl (hline _ List.mem_cons_self)
      · rcases List.mem_append.1 hc with hc | hc
        · exact .inl (hline _ (List.mem_cons_of_mem _ ((List.takeWhile_prefix _).subset hc)))
        · rcases List.mem_append.1 hc with hc | hc
          · exact .inr hc
          · exact .inl (hline _ (List.mem_cons_of_mem _
              ((List.dropWhile_suffix _).subset ((List.drop_suffix _ _).subset hc))))

/-- The line with another value sets the same key. -/
theorem kindOf_replacePropertyValue {k v : List Char} (hkind : text.kindOf line = .property k v)
    (value : List Char) : ∃ v', text.kindOf (replacePropertyValue line value) = .property k v' := by
  obtain ⟨blank, key, rest, hsets, rfl⟩ := exists_sets_of_kindOf hkind
  obtain ⟨lead, tail, -, -, -, -, hsets'⟩ := hsets.replace value
  exact ⟨_, hsets'.kindOf⟩

/-- Where lines set the key, the value of the first is replaced. -/
theorem Around.setsProperty_first (htext : text.Reads)
    (h : Around text file k e name before head direct after)
    (hfirst : First text key direct a line b) :
    ChangesOnly text k file (before ++ head ::
        ((a ++ replacePropertyValue line value :: b) ++ after)).flatten
      (IsSet text key (some value)) ↔
    match b.filter (text.setsKey key) with
    | [] => OnLine value ∧ ∃ k v, text.kindOf (replacePropertyValue line value) = .property k v ∧
        text.scalar v = value
    | _ => e.properties.get? (text.lower key) = some value := by
  obtain ⟨k', v, hkind, hk'⟩ := hfirst.property h.direct
  obtain ⟨v', hkind'⟩ := kindOf_replacePropertyValue hkind value
  have hfileLines : Lines.IsLines (before ++ head :: (direct ++ after)) :=
    h.lines ▸ isLines_of_mem
  have hmem : line ∈ direct := by
    rw [hfirst.eq]
    exact List.mem_append_right _ List.mem_cons_self
  have hreturn : ∀ l ∈ direct, '\r' ∉ l := fun l hl =>
    return_not_mem_readLines (h.lines ▸ List.mem_append_right _
      (List.mem_cons_of_mem _ (List.mem_append_left _ hl)))
  have hold : ∀ l ∈ a ++ replacePropertyValue line value :: b,
      l ∈ direct ∨ l = replacePropertyValue line value := by
    intro l hl
    rw [hfirst.eq]
    rcases List.mem_append.1 hl with hl | hl
    · exact .inl (List.mem_append_left _ hl)
    · exact (List.mem_cons.1 hl).symm.imp_left fun hl =>
        List.mem_append_right _ (List.mem_cons_of_mem _ hl)
  have hdirect' : ∀ l ∈ a ++ replacePropertyValue line value :: b, (text.kindOf l).IsDirect := by
    intro l hl
    rcases hold l hl with hl | rfl
    · exact h.direct l hl
    · rw [hkind']
      trivial
  -- With a value on one line, the lines are read as they were written.
  have hiff (hvalue : OnLine value) := h.changesOnly_lines_iff hdirect' (by
      obtain ⟨blank, key, rest, hsets, -⟩ := exists_sets_of_kindOf hkind
      have hlike := hsets.like_replace hvalue.1
      refine Lines.Edited.isLines ?_ hfileLines
      rw [hfirst.eq]
      exact (Lines.Edited.refl before).append (.cons (.refl head)
        (((Lines.Edited.refl a).append (.cons hlike (Lines.Edited.refl b))).append
          (Lines.Edited.refl after))))
    (fun l hl => by
      rcases hold l hl with hl | rfl
      · exact hreturn l hl
      · exact fun hc => (mem_replacePropertyValue hc).elim (hreturn line hmem) hvalue.2)
    key (some value)
  have hvalues : (a ++ replacePropertyValue line value :: b).filterMap
      (text.lineValue (text.lower key)) =
        text.scalar v' :: b.filterMap (text.lineValue (text.lower key)) := by
    have := hfirst.filterMap h.direct [replacePropertyValue line value]
    rw [List.singleton_append, List.filterMap_cons, lineValue_self hkind' hk'] at this
    exact this
  have hvaluesOld : direct.filterMap (text.lineValue (text.lower key)) =
      text.scalar v :: b.filterMap (text.lineValue (text.lower key)) := by
    have := hfirst.filterMap h.direct [line]
    rw [List.singleton_append, ← hfirst.eq, List.filterMap_cons, lineValue_self hkind hk'] at this
    exact this
  have hothers : ∀ q, q ≠ text.lower key →
      ((a ++ replacePropertyValue line value :: b).filterMap (text.lineValue q)).getLast? =
        (direct.filterMap (text.lineValue q)).getLast? := by
    intro q hq
    rw [hfirst.eq, List.filterMap_append, List.filterMap_append, List.filterMap_cons,
      List.filterMap_cons, lineValue_of_ne hkind hk' hq, lineValue_of_ne hkind' hk' hq]
  have hnil := hfirst.filter_eq_nil_iff h.direct
  rcases hb : b.filter (text.setsKey key) with _ | ⟨l, ls⟩
  · dsimp only
    rw [hnil.1 hb] at hvalues
    constructor
    · intro hchanges
      obtain ⟨⟨-, -, hvalue⟩, -⟩ := hchanges.onLine htext h.entry
      obtain ⟨hlast, -⟩ := (hiff hvalue).1 hchanges
      rw [hvalues] at hlast
      exact ⟨hvalue, k', v', hkind', Option.some.inj hlast⟩
    · rintro ⟨hvalue, k'', v'', hkind'', hv''⟩
      refine (hiff hvalue).2 ⟨?_, hothers⟩
      cases hkind'.symm.trans hkind''
      rw [hvalues, ← hv'']
      rfl
  · dsimp only
    have hne : b.filterMap (text.lineValue (text.lower key)) ≠ [] := fun hb' => by
      rw [hnil.2 hb'] at hb
      cases hb
    have hlast : ∀ w, (w :: b.filterMap (text.lineValue (text.lower key))).getLast? =
        (b.filterMap (text.lineValue (text.lower key))).getLast? := by
      intro w
      rw [List.getLast?_cons]
      obtain ⟨x, hx⟩ := Option.ne_none_iff_exists'.1 (mt List.getLast?_eq_none_iff.1 hne)
      rw [hx]
      rfl
    have hget : e.properties.get? (text.lower key) =
        (b.filterMap (text.lineValue (text.lower key))).getLast? := by
      rw [h.get?_properties, hvaluesOld, hlast]
    rw [hget]
    constructor
    · intro hchanges
      obtain ⟨⟨-, -, hvalue⟩, -⟩ := hchanges.onLine htext h.entry
      obtain ⟨hlast', -⟩ := (hiff hvalue).1 hchanges
      rwa [hvalues, hlast] at hlast'
    · intro hsome
      -- The value that the interface has is on one line.
      have hvalue : OnLine value := by
        refine ((parseFile_onLine htext (List.mem_of_getElem? h.entry)).properties
          (text.lower key) value ?_).2.2
        rw [hget, hsome]
      refine (hiff hvalue).2 ⟨?_, hothers⟩
      rw [hvalues, hlast, hsome]

/-! ## Inserting a line -/

/-- A line that is inserted after a newline is read by itself. -/
theorem kinds_insert_line {A C : List (List Char)} {new init : List Char}
    (hfile : readLines file = A ++ C) (hA : ∀ line ∈ A, Lines.Terminated line)
    (hnew : new = init ++ ['\n']) :
    text.kinds (readLines (A ++ new :: C).flatten) =
      text.kinds A ++ (text.kinds (readLines new) ++ text.kinds C) := by
  have hreturn : ∀ line ∈ A ++ C, '\r' ∉ line := fun line hline =>
    return_not_mem_readLines (hfile ▸ hline)
  have hC : Lines.IsLines C := (Lines.isLines_append.1 (hfile ▸ isLines_of_mem)).2.1
  have hno : ∀ l : List (List Char), (∀ line ∈ l, '\r' ∉ line) → '\r' ∉ l.flatten := by
    intro l hl hmem
    obtain ⟨line, hline, hmem⟩ := List.mem_flatten.1 hmem
    exact hl line hline hmem
  have hnoA := hno A fun line hline => hreturn line (List.mem_append_left _ hline)
  have hnoC := hno C fun line hline => hreturn line (List.mem_append_right _ hline)
  have hsplit : ∀ t, Lines.split (A.flatten ++ t) = A ++ Lines.split t := by
    intro t
    clear hfile hreturn hnoA
    induction A with
    | nil => rfl
    | cons line A ih =>
      obtain ⟨hline, hA⟩ := List.forall_mem_cons.1 hA
      rw [List.flatten_cons, List.append_assoc, Lines.split_append_of_terminated hline, ih hA,
        List.cons_append]
  have hflat : (A ++ new :: C).flatten = A.flatten ++ (init ++ '\n' :: C.flatten) := by
    rw [List.flatten_append, List.flatten_cons, hnew, List.append_assoc]
    rfl
  rw [readLines, hflat, Lines.universal_append_of_not_mem hnoA, Lines.universal_append_newline,
    Lines.universal_of_not_mem hnoC, hsplit, ← hnew,
    Lines.split_append_of_newline (by rw [hnew]; exact Lines.universal_newline init),
    Lines.split_flatten hC, kinds_append, kinds_append, readLines]

theorem return_not_mem_detectIndent (hreturn : ∀ line ∈ lines, '\r' ∉ line) (afterLine : ℕ) :
    '\r' ∉ text.detectIndent lines afterLine := by
  rw [Text.detectIndent]
  split
  · next line hfind =>
    have hline : line ∈ lines :=
      (List.drop_suffix _ _).subset ((List.takeWhile_prefix _).subset ((List.take_prefix _ _).subset
        ((List.takeWhile_prefix _).subset (List.mem_of_find?_eq_some hfind))))
    exact fun hmem => hreturn line hline ((List.takeWhile_prefix _).subset hmem)
  · decide

theorem onLine_detectIndent (text : Text) (file : List Char) (afterLine : ℕ) :
    OnLine (text.detectIndent (readLines file) afterLine) ∧
      '[' ∉ text.detectIndent (readLines file) afterLine := by
  obtain ⟨hspace, hnewline⟩ := detectIndent_spec text (readLines file) afterLine
  refine ⟨⟨hnewline isLines_of_mem, return_not_mem_detectIndent (fun line hline =>
    return_not_mem_readLines hline) afterLine⟩, fun hmem => ?_⟩
  cases hspace _ hmem

/-- What follows the head of an interface on its line sets no property. -/
theorem kindOf_head_append (h : text.kindOf head = .subsectionHead name) (after : List Char) :
    ∀ k v, text.kindOf (head ++ after) ≠ .property k v := by
  intro k v hkind
  have htwo : bracketed 2 (rstripNewline head) = some name := by
    rw [Text.kindOf] at h
    split at h
    · cases h
    · split at h
      · next n htwo =>
        cases h
        exact htwo
      · split_ifs at h
        split at h <;> cases h
  rw [bracketed_rstripNewline Nat.two_pos] at htwo
  obtain ⟨⟨hopen, -⟩, -⟩ := Option.ite_none_right_eq_some.1 htwo
  -- The line begins with a bracket still.
  obtain ⟨c, l, hl⟩ := List.exists_cons_of_ne_nil (l := PyStr.lstrip head) fun hnil => by
    rw [hnil] at hopen
    cases hopen
  rw [hl] at hopen
  cases (List.cons.inj hopen).1
  have hlstrip : PyStr.lstrip (head ++ after) = '[' :: (l ++ after) := by
    have hhead := List.takeWhile_append_dropWhile (p := PyStr.isSpace) (l := head)
    rw [PyStr.lstrip] at hl
    rw [hl] at hhead
    rw [← hhead, PyStr.lstrip, List.append_assoc, List.dropWhile_append_of_pos fun x hx =>
      List.mem_takeWhile_imp hx]
    rfl
  obtain ⟨blank, key, rest, hsets, -⟩ := exists_sets_of_kindOf hkind
  exact hsets.not_bracket hlstrip

/-- A line that sets a property still does, with more on it. -/
theorem kindOf_property_append {k v : List Char} (h : text.kindOf line = .property k v)
    (after : List Char) : ∃ v', text.kindOf (line ++ after) = .property k v' := by
  obtain ⟨blank, key, rest, hsets, rfl⟩ := exists_sets_of_kindOf h
  have hsets' : text.Sets blank key (rest ++ after) (line ++ after) :=
    { hsets with
      eq := by
        rw [hsets.eq]
        simp only [List.append_assoc, List.cons_append] }
  exact ⟨_, hsets'.kindOf⟩

/-- After the lines of the interfaces before, a line without a property adds none. -/
theorem get?_read_single {s : Scan} {kind : Kind} (hkind : ∀ k v, kind ≠ .property k v)
    {i : InterfaceEntry} (hi : (s.read text [kind]).finish[s.finish.length]? = some i)
    (q : List Char) : i.properties.get? q = none := by
  have hnone : ∀ t : Scan, t.finish.length = s.finish.length →
      t.finish[s.finish.length]? ≠ some i := by
    intro t ht
    rw [← ht, List.getElem?_eq_none (le_refl _)]
    exact (Option.some_ne_none i).symm
  rw [Scan.read, List.foldl_cons, List.foldl_nil] at hi
  cases kind with
  | sectionHead name => exact (hnone _ (by simp [Scan.stepKind, Scan.finish]) hi).elim
  | subsectionHead name =>
    rw [Scan.stepKind] at hi
    split_ifs at hi
    · rw [Scan.finish, Option.toList_some, List.getElem?_append_right (le_refl _),
        Nat.sub_self] at hi
      cases hi
      exact Dict.get?_empty
    · exact (hnone s rfl hi).elim
  | nestedHead =>
    rw [Scan.stepKind] at hi
    split_ifs at hi
    · exact (hnone _ rfl hi).elim
    · exact (hnone s rfl hi).elim
  | property k v => exact (hkind k v rfl).elim
  | other => exact (hnone s rfl hi).elim

/-- Without a newline before it, what is inserted becomes part of the last line. -/
theorem Around.not_setsProperty (htext : text.Reads)
    (h : Around text file k e name before head direct [])
    (hnone : ∀ line ∈ direct, text.setsKey key line = false)
    (hlast : ∀ line ∈ (head :: direct).getLast?, '\n' ∉ line ∧
      (direct ≠ [] → text.setsAny line = true)) :
    ¬ ChangesOnly text k file ((before ++ head :: direct).flatten ++
      propertyLine (text.detectIndent (readLines file) e.startLine) key value)
        (IsSet text key (some value)) := by
  intro hchanges
  obtain ⟨⟨hkey, hbracket, hvalue⟩, e', he', hget⟩ := hchanges.onLine htext h.entry
  obtain ⟨t, ht, hnew⟩ := whole_propertyLine
    (onLine_detectIndent text file e.startLine).1 hkey hvalue
  have hlines := h.lines
  rw [List.append_nil] at hlines
  have hfileLines : Lines.IsLines (before ++ head :: direct) := hlines ▸ isLines_of_mem
  have hreturn : ∀ line ∈ before ++ head :: direct, '\r' ∉ line := fun line hline =>
    return_not_mem_readLines (hlines ▸ hline)
  -- The file is read with its last line and what is inserted as one.
  have hread : ∀ A P, before ++ head :: direct = A ++ [P] → '\n' ∉ P →
      readLines ((before ++ head :: direct).flatten ++
        propertyLine (text.detectIndent (readLines file) e.startLine) key value) =
          A ++ [P ++ (t ++ ['\n'])] := by
    intro A P hA hP
    rw [hA] at hfileLines hreturn
    have hterm := (Lines.isLines_append.1 hfileLines).2.2 (List.cons_ne_nil _ _)
    have hflat : (before ++ head :: direct).flatten ++
        propertyLine (text.detectIndent (readLines file) e.startLine) key value =
          (A ++ [P ++ (t ++ ['\n'])]).flatten := by
      rw [hA, hnew]
      simp only [List.flatten_append, List.flatten_cons, List.flatten_nil, List.append_nil,
        List.append_assoc]
    rw [hflat]
    refine readLines_flatten (Lines.isLines_append.2 ⟨(Lines.isLines_append.1 hfileLines).1,
      ⟨.inl ⟨P ++ t, ?_, by rw [List.append_assoc]⟩, trivial⟩, fun _ => hterm⟩) ?_
    · exact fun hmem => (List.mem_append.1 hmem).elim hP ht.1
    · intro line hline
      rcases List.mem_append.1 hline with hline | hline
      · exact hreturn line (List.mem_append_left _ hline)
      · rw [List.mem_singleton.1 hline, List.mem_append, List.mem_append]
        rintro (hc | hc | hc)
        · exact hreturn P (List.mem_append_right _ List.mem_cons_self) hc
        · exact ht.2 hc
        · exact absurd hc (by decide)
  rcases List.eq_nil_or_concat' direct with rfl | ⟨init, P, rfl⟩
  · -- The head of the interface is the last line.
    have hfile' := hread before head rfl (hlast head rfl).1
    have hsame : List.Forall₂ InterfaceEntry.Same _ (parseFile text
      ((before ++ [head]).flatten ++
        propertyLine (text.detectIndent (readLines file) e.startLine) key value)) := parse_same _
    rw [hfile', kinds_append, Text.interfaces, Scan.read_append] at hsame
    have hlt : k < ((Scan.read text {} (text.kinds before)).read text
        (text.kinds [head ++ (t ++ ['\n'])])).finish.length := by
      rw [hsame.length_eq]
      exact (List.getElem?_eq_some_iff.1 he').1
    obtain ⟨i, hi⟩ : ∃ i, ((Scan.read text {} (text.kinds before)).read text
        (text.kinds [head ++ (t ++ ['\n'])])).finish[k]? = some i :=
      ⟨_, List.getElem?_eq_getElem hlt⟩
    rw [(of_getElem? hsame hi he').properties] at hget
    have hkind := kindOf_head_append h.head (t ++ ['\n'])
    by_cases hother : text.kindOf (head ++ (t ++ ['\n'])) = .other
    · have hnil : text.kinds [head ++ (t ++ ['\n'])] = [] := kinds_cons_other hother []
      rw [hnil] at hlt
      exact absurd hlt (by rw [← h.found]; exact lt_irrefl _)
    · have hsingle : text.kinds [head ++ (t ++ ['\n'])] = [text.kindOf (head ++ (t ++ ['\n']))] := by
        rw [Text.kinds, List.map_cons, List.filter_cons, if_pos (by simpa using hother)]
        rfl
      rw [hsingle, ← h.found] at hi
      rw [get?_read_single hkind hi] at hget
      cases hget
  · -- The last line sets another key, and still does.
    obtain ⟨hP, hany⟩ := hlast P (by rw [← List.cons_append, List.getLast?_concat]; rfl)
    have hmem : P ∈ init ++ [P] := List.mem_append_right _ List.mem_cons_self
    have hfile' := hread (before ++ head :: init) P (by simp) hP
    obtain ⟨-, -, ⟨hkv, -⟩ | ⟨k', v, hkv, hkind⟩⟩ := keyValue_of_isDirect (h.direct P hmem)
    · rw [Text.setsAny, hkv] at hany
      exact Bool.false_ne_true (hany (by simp))
    obtain ⟨v', hkind'⟩ := kindOf_property_append hkind (t ++ ['\n'])
    have hk' : text.lower (PyStr.strip k') ≠ text.lower key := by
      have := hnone P hmem
      rw [Text.setsKey, hkv] at this
      exact of_decide_eq_false this
    have hinit : ∀ line ∈ init, line ∈ init ++ [P] := fun line hline =>
      List.mem_append_left _ hline
    have hdirect' : ∀ line ∈ init ++ [P ++ (t ++ ['\n'])], (text.kindOf line).IsDirect := by
      intro line hline
      rcases List.mem_append.1 hline with hline | hline
      · exact h.direct line (hinit line hline)
      · rw [List.mem_singleton.1 hline, hkind']
        trivial
    have hkinds : text.kinds (before ++ head :: init ++ [P ++ (t ++ ['\n'])]) =
        text.kinds before ++ .subsectionHead name ::
          (text.kinds (init ++ [P ++ (t ++ ['\n'])]) ++ text.kinds []) := by
      rw [List.append_assoc, kinds_append, List.cons_append, kinds_head h.head,
        show text.kinds [] = [] from rfl, List.append_nil]
    rw [← hfile'] at hkinds
    obtain ⟨hlastValue, -⟩ := (h.changesOnly_iff (isDirect_kinds hdirect') hkinds _ _).1 hchanges
    have hvalues : (init ++ [P ++ (t ++ ['\n'])]).filterMap (text.lineValue (text.lower key)) =
        [] := by
      rw [List.filterMap_append, filterMap_lineValue_eq_nil
        (fun line hline => h.direct line (hinit line hline))
        (fun line hline => hnone line (hinit line hline)), List.filterMap_cons, Text.lineValue,
        hkind', Text.valueFor, if_neg hk']
      rfl
    rw [filterMap_kinds, hvalues] at hlastValue
    cases hlastValue

/-- After a newline, the line that is inserted is read as one more under the head. -/
theorem Around.setsProperty_inserted (htext : text.Reads)
    (h : Around text file k e name before head (a ++ b) after)
    (hnone : ∀ line ∈ a ++ b, text.setsKey key line = false)
    (hterm : ∀ line ∈ before ++ head :: a, Lines.Terminated line) :
    ChangesOnly text k file ((before ++ head :: a) ++
        propertyLine (text.detectIndent (readLines file) e.startLine) key value ::
          (b ++ after)).flatten (IsSet text key (some value)) ↔
      ∃ k v, text.kinds (readLines (propertyLine (text.detectIndent (readLines file) e.startLine)
        key value)) = [.property k v] ∧ text.lower (PyStr.strip k) = text.lower key ∧
          text.scalar v = value := by
  set new := propertyLine (text.detectIndent (readLines file) e.startLine) key value with hnew
  have hsplit : readLines file = (before ++ head :: a) ++ (b ++ after) := by
    rw [h.lines]
    simp only [List.append_assoc, List.cons_append]
  have hfile' : text.kinds (readLines ((before ++ head :: a) ++ new :: (b ++ after)).flatten) =
      text.kinds before ++ .subsectionHead name ::
        ((text.kinds a ++ (text.kinds (readLines new) ++ text.kinds b)) ++ text.kinds after) := by
    rw [kinds_insert_line hsplit hterm (propertyLine_eq _ _ _), kinds_append, kinds_head h.head,
      kinds_append]
    simp only [List.append_assoc, List.cons_append]
    rfl
  have hdirect : ∀ line ∈ a ++ b, (text.kindOf line).IsDirect := h.direct
  have ha : ∀ line ∈ a, line ∈ a ++ b := fun _ => List.mem_append_left b
  have hb : ∀ line ∈ b, line ∈ a ++ b := fun _ => List.mem_append_right a
  have hiff (hread : ∀ kind ∈ text.kinds (readLines new), kind.IsDirect) :=
    h.changesOnly_iff (List.forall_mem_append.2
      ⟨isDirect_kinds fun line hline => hdirect line (ha line hline), List.forall_mem_append.2
        ⟨hread, isDirect_kinds fun line hline => hdirect line (hb line hline)⟩⟩) hfile' key (some value)
  have hnoA := filterMap_lineValue_eq_nil (fun line hline => hdirect line (ha line hline))
    (fun line hline => hnone line (ha line hline))
  have hnoB := filterMap_lineValue_eq_nil (fun line hline => hdirect line (hb line hline))
    (fun line hline => hnone line (hb line hline))
  have hvalues : (text.kinds a ++ (text.kinds (readLines new) ++ text.kinds b)).filterMap
      (text.valueFor (text.lower key)) =
        (text.kinds (readLines new)).filterMap (text.valueFor (text.lower key)) := by
    rw [List.filterMap_append, List.filterMap_append, filterMap_kinds _ a, filterMap_kinds _ b,
      hnoA, hnoB, List.nil_append, List.append_nil]
  constructor
  · intro hchanges
    obtain ⟨⟨hkey, hbracket, hvalue⟩, -⟩ := hchanges.onLine htext h.entry
    obtain ⟨hindent, hno⟩ := onLine_detectIndent text file e.startLine
    have hwhole : Whole new := whole_propertyLine hindent hkey hvalue
    have hone : readLines new = [new] := by
      have := readLines_of_whole (List.forall_mem_singleton.2 hwhole)
      rwa [List.flatten_singleton] at this
    have hkind : (text.kindOf new).IsDirect := isDirect_propertyLine hno hbracket
    have hread : ∀ kind ∈ text.kinds (readLines new), kind.IsDirect := by
      rw [hone]
      exact isDirect_kinds (List.forall_mem_singleton.2 hkind)
    obtain ⟨hlast, -⟩ := (hiff hread).1 hchanges
    rw [hvalues, hone, filterMap_kinds] at hlast
    -- The value comes from the new line.
    cases hk : text.kindOf new with
    | property k' v =>
      rw [List.filterMap_cons, Text.lineValue, hk, Text.valueFor] at hlast
      by_cases hk' : text.lower (PyStr.strip k') = text.lower key
      · rw [if_pos hk'] at hlast
        refine ⟨k', v, ?_, hk', Option.some.inj hlast⟩
        rw [hone, Text.kinds, List.map_cons, hk]
        rfl
      · rw [if_neg hk'] at hlast
        cases hlast
    | _ =>
      rw [List.filterMap_cons, Text.lineValue, hk] at hlast
      cases hlast
  · rintro ⟨k', v, hkinds, hk', hv⟩
    have hread : ∀ kind ∈ text.kinds (readLines new), kind.IsDirect := by
      rw [hkinds]
      exact List.forall_mem_singleton.2 trivial
    refine (hiff hread).2 ⟨?_, fun q hq => ?_⟩
    · rw [hvalues, hkinds, List.filterMap_cons, Text.valueFor, if_pos hk', hv]
      rfl
    · rw [hkinds, List.filterMap_append, List.filterMap_append, List.filterMap_cons, Text.valueFor,
        hk', if_neg (Ne.symm hq), filterMap_kinds _ a, filterMap_kinds _ b, List.filterMap_append]
      rfl

/-- A property that is set is read exactly if it can be set. -/
theorem setsProperty_iff (htext : text.Reads) (he : (parseFile text file)[k]? = some e)
    (key value : List Char) :
    ChangesOnly text k file (withProperty text file e key value) (IsSet text key (some value)) ↔
      CanSet text (readLines file) e key value := by
  obtain ⟨name, before, head, direct, after, h⟩ := exists_isAround he
  rw [CanSet, withProperty, setInterfaceProperty, h.directLines]
  rcases findIdx?_cases (text.setsKey key) direct with
    ⟨hfind, hfilter⟩ | ⟨a, line, b, hab, hfind, hsets, ha, hfilter⟩
  · rw [hfind, hfilter]
    dsimp only
    have hnone : ∀ line ∈ direct, text.setsKey key line = false := fun line hline =>
      Bool.eq_false_iff.2 (List.filter_eq_nil_iff.1 hfilter line hline)
    -- The lines up to the last that sets something, and the last of them.
    obtain ⟨b, hab⟩ := List.rdropWhile_prefix (fun line => ! text.setsAny line) (l := direct)
    set a := direct.rdropWhile fun line => ! text.setsAny line with hadef
    have hlength : text.insertAt direct = a.length := rfl
    obtain ⟨A, P, hA⟩ := (List.eq_nil_or_concat' (before ++ head :: a)).resolve_left (by simp)
    have hAlength : A.length = e.startLine + a.length := by
      have := congrArg List.length hA
      rw [List.length_append, List.length_append, List.length_cons, List.length_singleton] at this
      rw [h.startLine]
      omega
    have hlines : readLines file = A ++ P :: (b ++ after) := by
      rw [h.lines, ← hab]
      calc before ++ head :: (a ++ b ++ after) = (before ++ head :: a) ++ (b ++ after) := by
            simp only [List.append_assoc, List.cons_append]
        _ = _ := by rw [hA, List.append_assoc]; rfl
    have hget : (readLines file)[e.startLine + text.insertAt direct]? = some P := by
      rw [hlines, hlength, ← hAlength, List.getElem?_append_right (le_refl _), Nat.sub_self]
      rfl
    have hinsert : (readLines file).insertIdx (e.startLine + 1 + text.insertAt direct)
        (propertyLine (text.detectIndent (readLines file) e.startLine) key value) =
          (before ++ head :: a) ++ propertyLine (text.detectIndent (readLines file) e.startLine)
            key value :: (b ++ after) := by
      have hidx : e.startLine + 1 + text.insertAt direct = A.length + 1 := by
        rw [hlength, hAlength]
        omega
      rw [hidx, hA, List.append_assoc]
      nth_rewrite 1 [hlines]
      exact insertIdx_append_cons _ A P (b ++ after)
    have hfileLines : Lines.IsLines (A ++ P :: (b ++ after)) := hlines ▸ isLines_of_mem
    obtain ⟨-, ⟨hP, -⟩, hAterm⟩ := Lines.isLines_append.1 hfileLines
    rw [hinsert, hget]
    by_cases hnewline : '\n' ∈ P
    · have hterm : ∀ line ∈ before ++ head :: a, Lines.Terminated line := by
        rw [hA]
        refine List.forall_mem_append.2 ⟨hAterm (List.cons_ne_nil _ _),
          List.forall_mem_singleton.2 (hP.resolve_right fun hlast => hlast.1.2 hnewline)⟩
      rw [← hab] at h hnone
      rw [h.setsProperty_inserted htext hnone hterm]
      exact (and_iff_right ⟨P, rfl, hnewline⟩).symm
    · refine iff_of_false (fun hchanges => ?_) ?_
      · -- The line is the last of the file.
        have hnil := (hP.resolve_left fun hterm => hnewline hterm.mem).2
        obtain ⟨rfl, rfl⟩ := List.append_eq_nil_iff.1 hnil
        rw [List.append_nil] at hab
        have hflat : (before ++ head :: a ++
            propertyLine (text.detectIndent (readLines file) e.startLine) key value ::
              ([] ++ [])).flatten = (before ++ head :: direct).flatten ++
                propertyLine (text.detectIndent (readLines file) e.startLine) key value := by
          rw [hab, List.append_nil, List.flatten_append, List.flatten_singleton]
        rw [hflat] at hchanges
        refine h.not_setsProperty htext hnone (fun line hline => ?_) hchanges
        have hlast : (head :: direct).getLast? = some P := by
          have := congrArg List.getLast? hA
          rw [List.getLast?_concat, List.getLast?_append_of_ne_nil _ (List.cons_ne_nil _ _),
            hab] at this
          exact this
        cases hlast.symm.trans hline
        refine ⟨hnewline, fun hne => ?_⟩
        have hdrop : direct.rdropWhile (fun line => ! text.setsAny line) ≠ [] := by
          rw [← hadef, hab]
          exact hne
        have hsets := List.rdropWhile_last_not _ _ hdrop
        have hgetLast : (direct.rdropWhile (fun line => ! text.setsAny line)).getLast hdrop = P := by
          have hdirect : direct.getLast? = some P := by
            rwa [List.getLast?_cons_of_ne_nil hne] at hlast
          rw [← hab, hadef] at hdirect
          exact Option.some.inj ((List.getLast?_eq_getLast_of_ne_nil hdrop).symm.trans hdirect)
        rw [hgetLast, Bool.not_eq_true, Bool.not_eq_false'] at hsets
        exact hsets
      · rintro ⟨⟨line, hline, hmem⟩, -⟩
        cases hline
        exact hnewline hmem
  · have hfirst : First text key direct a line b := ⟨hab, hsets, ha⟩
    have hmodify : (readLines file).modify (e.startLine + 1 + a.length)
        (fun line => replacePropertyValue line value) =
          before ++ head :: ((a ++ replacePropertyValue line value :: b) ++ after) := by
      have hsplit : readLines file = (before ++ head :: a) ++ line :: (b ++ after) := by
        rw [h.lines, hab]
        simp only [List.append_assoc, List.cons_append]
      have hlength : e.startLine + 1 + a.length = (before ++ head :: a).length := by
        rw [h.startLine, List.length_append, List.length_cons]
        omega
      rw [hsplit, hlength, modify_append_cons]
      simp only [List.append_assoc, List.cons_append]
    rw [hfind, hfilter]
    dsimp only
    rw [hmodify, h.setsProperty_first htext hfirst]
    cases b.filter (text.setsKey key) <;> rfl

/-- A file with a comment after a value, and one with two values of a key. -/
def commentFile : List Char := "[interfaces]\n[[A]]\n  Port = 1 # old\n\n[[B]]\n".toList

def duplicateFile : List Char := "[interfaces]\n[[A]]\nport = 1\nport = 2\n".toList

end ReticulumPi.Rns
