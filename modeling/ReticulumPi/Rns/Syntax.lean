import Mathlib
import ReticulumPi.Lib.Lines
import ReticulumPi.Lib.PyStr

/-!
# The lines of a Reticulum config file

`rns_config.py` reads a config file line by line: a line heads a section
(`[name]`), a subsection (`[[name]]`) or a section nested deeper, or sets a
property, or is none of these. A value is replaced within its line, up to the
comment; what is replaced is read again as a property of the same key, with the
new value (`kindOf_replace`).
-/

namespace ReticulumPi.Rns

open List

/-- What the parser leaves to Python's strings and to `ConfigObj`. -/
structure Text where
  /-- `_parse_configobj_scalar`. -/
  scalar : List Char → List Char
  /-- `str.lower`. -/
  lower : List Char → List Char
  /-- `str.casefold`. -/
  casefold : List Char → List Char
  /-- `str.isalnum`, of a character that is not in ASCII. -/
  isAlnum : Char → Bool

theorem lawfulBEq_key : LawfulBEq (List Char) := List.instLawfulBEq

/-- `val`: what a flag is set to. -/
def flagValue (enabled : Bool) : List Char := if enabled then "yes".toList else "no".toList

/-- A space or a tab. -/
def isBlank (c : Char) : Bool := c = ' ' || c = '\t'

/-- `raw.rstrip("\n\r")`. -/
def isNewline (c : Char) : Bool := c = '\n' || c = '\r'

def rstripNewline (raw : List Char) : List Char := raw.rdropWhile isNewline

/-- What is known of them: `yes` and `no` are scalars, also before a comment, and
    lower case is lower case. -/
structure Text.Plain (text : Text) : Prop where
  scalar_flag : ∀ enabled, text.scalar (flagValue enabled) = flagValue enabled
  scalar_comment : ∀ enabled blank comment, (∀ c ∈ blank, isBlank c = true) →
    text.scalar (flagValue enabled ++ (blank ++ '#' :: comment)) = flagValue enabled
  lower_flag : ∀ enabled, text.lower (flagValue enabled) = flagValue enabled
  lower_key : text.lower "enabled".toList = "enabled".toList

variable (text : Text)

/-- `\w`. -/
def Text.isWord (c : Char) : Bool :=
  c = '_' || if c.toNat < 128 then c.isAlphanum else text.isAlnum c

/-- `[\w\s]`. -/
def Text.isKey (c : Char) : Bool := text.isWord c || PyStr.isSpace c

/-! ## Kinds of lines -/

/-- `\s*(?:#.*)?$`. -/
def endsLine (rest : List Char) : Bool :=
  match PyStr.lstrip rest with
  | [] => true
  | c :: _ => c = '#'

/-- `_SECTION_RE` and `_SUBSECTION_RE`: the name within one pair of brackets, or two. -/
def bracketed (depth : ℕ) (line : List Char) : Option (List Char) :=
  let line := PyStr.lstrip line
  let isName (c : Char) : Bool := c ≠ '[' && c ≠ ']'
  let name := (line.drop depth).takeWhile isName
  let rest := (line.drop depth).dropWhile isName
  if line.take depth = List.replicate depth '[' ∧ name ≠ [] ∧
      rest.take depth = List.replicate depth ']' ∧ endsLine (rest.drop depth) then some name
  else none

/-- `.*\]{3,}\s*(?:#.*)?$`. -/
def closesNested : List Char → Bool
  | [] => false
  | c :: rest => (c :: rest).take 3 = "]]]".toList && endsLine ((c :: rest).drop 3) ||
    closesNested rest

/-- `_NESTED_SUBSECTION_RE`. -/
def isNested (line : List Char) : Bool :=
  let line := PyStr.lstrip line
  line.take 3 = "[[[".toList && closesNested (line.drop 3)

/-- `_KV_RE`: the key and the value. -/
def Text.keyValue (line : List Char) : Option (List Char × List Char) :=
  let line := PyStr.lstrip line
  let key := line.takeWhile text.isKey
  match line.dropWhile text.isKey with
  | '=' :: value => if key = [] then none else some (PyStr.rstrip key, PyStr.strip value)
  | _ => none

inductive Kind
  | sectionHead (name : List Char)
  | subsectionHead (name : List Char)
  | nestedHead
  | property (key value : List Char)
  | other
  deriving DecidableEq

/-- What a line is, in the order in which the parser tries the patterns. -/
def Text.kindOf (raw : List Char) : Kind :=
  let line := rstripNewline raw
  match bracketed 1 line with
  | some name => .sectionHead name
  | none =>
    match bracketed 2 line with
    | some name => .subsectionHead name
    | none =>
      if isNested line then .nestedHead
      else match text.keyValue line with
        | some (key, value) => .property key value
        | none => .other

/-! ## Replacing a value -/

/-- The place of the comment in what is left of a line, `comment_start`; quoted and
    escaped characters are passed over. -/
def findComment : Option Char → Bool → List Char → Option ℕ
  | _, _, [] => none
  | quote, escaped, c :: rest =>
    if isNewline c then none
    else if escaped then (findComment quote false rest).map (· + 1)
    else if c.toNat = 92 ∧ quote.isSome then (findComment quote true rest).map (· + 1)
    else match quote with
      | some q => (findComment (if c = q then none else quote) false rest).map (· + 1)
      | none =>
        if c.toNat = 39 ∨ c.toNat = 34 then (findComment (some c) false rest).map (· + 1)
        else if c = '#' then some 0
        else (findComment none false rest).map (· + 1)

/-- The value that is replaced: up to the comment, or to the end of the line. -/
def valueOf (body : List Char) : List Char :=
  (body.take ((findComment none false body).getD (rstripNewline body).length)).rdropWhile isBlank

/-- `_replace_property_value`. -/
def replacePropertyValue (line value : List Char) : List Char :=
  match line.dropWhile (· ≠ '=') with
  | [] => line
  | equals :: rest =>
    let body := rest.dropWhile isBlank
    line.takeWhile (· ≠ '=') ++
      equals :: (rest.takeWhile isBlank ++ (value ++ body.drop (valueOf body).length))

/-! ## Lines that set a property -/

theorem rdropWhile_append_cons {p : Char → Bool} {c : Char} (hc : p c = false)
    (before after : List Char) :
    (before ++ c :: after).rdropWhile p = before ++ c :: after.rdropWhile p := by
  induction after using List.reverseRecOn with
  | nil => exact rdropWhile_concat_neg _ _ _ (by rw [hc]; exact Bool.false_ne_true)
  | append_singleton after d ih =>
    rw [← cons_append, ← append_assoc, rdropWhile_concat, rdropWhile_concat]
    split_ifs
    · exact ih
    · rw [append_assoc, cons_append]

theorem takeWhile_append_cons {p : Char → Bool} {before : List Char} {c : Char}
    (hbefore : ∀ d ∈ before, p d = true) (hc : p c = false) (after : List Char) :
    (before ++ c :: after).takeWhile p = before ∧
      (before ++ c :: after).dropWhile p = c :: after := by
  constructor
  · rw [takeWhile_append_of_pos hbefore, takeWhile_cons, hc]
    simp
  · rw [dropWhile_append_of_pos hbefore, dropWhile_cons, hc]
    rfl

/-- A line that sets a property: white space, the key, and what follows the sign. -/
structure Text.Sets (blank key rest : List Char) (raw : List Char) : Prop where
  eq : raw = blank ++ (key ++ '=' :: rest)
  isSpace : ∀ c ∈ blank, PyStr.isSpace c = true
  isKey : ∀ c ∈ key, text.isKey c = true
  first : ∃ c tail, key = c :: tail ∧ text.isWord c = true ∧ PyStr.isSpace c = false

variable {text} {blank key rest raw : List Char}

theorem Text.isKey_equals : text.isKey '=' = false := rfl

variable (h : text.Sets blank key rest raw)
include h

theorem Text.Sets.lstrip : PyStr.lstrip raw = key ++ '=' :: rest := by
  obtain ⟨c, tail, hkey, -, hc⟩ := h.first
  rw [h.eq, PyStr.lstrip, dropWhile_append_of_pos h.isSpace, hkey, cons_append,
    dropWhile_cons, hc]
  rfl

theorem Text.Sets.rstripNewline : text.Sets blank key (rstripNewline rest) (rstripNewline raw) where
  eq := by
    rw [Rns.rstripNewline, h.eq, ← append_assoc, rdropWhile_append_cons rfl,
      append_assoc]
    rfl
  isSpace := h.isSpace
  isKey := h.isKey
  first := h.first

theorem Text.Sets.keyValue : text.keyValue raw = some (PyStr.rstrip key, PyStr.strip rest) := by
  obtain ⟨htake, hdrop⟩ := takeWhile_append_cons h.isKey Text.isKey_equals rest
  obtain ⟨c, tail, hkey, -, -⟩ := h.first
  rw [Text.keyValue, h.lstrip, htake, hdrop]
  exact if_neg (by rw [hkey]; exact cons_ne_nil _ _)

theorem Text.Sets.not_bracket {l : List Char} : PyStr.lstrip raw ≠ '[' :: l := by
  obtain ⟨c, tail, hkey, hword, -⟩ := h.first
  rw [h.lstrip, hkey]
  intro heq
  cases (List.cons.inj heq).1
  cases hword

theorem Text.Sets.bracketed {depth : ℕ} (hdepth : 0 < depth) : bracketed depth raw = none := by
  rw [Rns.bracketed]
  refine if_neg fun hand => ?_
  obtain ⟨depth, rfl⟩ := Nat.exists_eq_succ_of_ne_zero hdepth.ne'
  rcases hl : PyStr.lstrip raw with _ | ⟨c, l⟩
  · rw [hl] at hand
    cases hand.1
  · rw [hl, take_succ_cons, replicate_succ] at hand
    cases (List.cons.inj hand.1).1
    exact h.not_bracket hl

theorem Text.Sets.isNested : isNested raw = false := by
  rw [Rns.isNested]
  rcases hl : PyStr.lstrip raw with _ | ⟨c, l⟩
  · rfl
  · have hc : c ≠ '[' := fun hc => h.not_bracket (hc ▸ hl)
    have hno : (c :: l).take 3 ≠ "[[[".toList := fun heq => hc (List.cons.inj heq).1
    rw [decide_eq_false hno, Bool.false_and]

theorem Text.Sets.kindOf :
    text.kindOf raw = .property (PyStr.rstrip key) (PyStr.strip (Rns.rstripNewline rest)) := by
  have h' := h.rstripNewline
  rw [Text.kindOf, h'.bracketed one_pos, h'.bracketed two_pos, h'.isNested, h'.keyValue]
  rfl

omit h

/-- Lines whose kind is that of a property set one. -/
theorem exists_sets_of_kindOf {k v : List Char} (h : text.kindOf raw = .property k v) :
    ∃ blank key rest, text.Sets blank key rest raw ∧ PyStr.rstrip key = k := by
  rw [Text.kindOf] at h
  rcases hsection : bracketed 1 (rstripNewline raw) with _ | name
  swap
  · rw [hsection] at h
    cases h
  rcases hsubsection : bracketed 2 (rstripNewline raw) with _ | name
  swap
  · rw [hsection, hsubsection] at h
    cases h
  rw [hsection, hsubsection] at h
  dsimp only at h
  split_ifs at h
  rcases hkv : text.keyValue (rstripNewline raw) with _ | ⟨k', v'⟩
  · rw [hkv] at h
    cases h
  rw [hkv] at h
  cases h
  rw [Text.keyValue] at hkv
  set line := PyStr.lstrip (rstripNewline raw) with hline
  rcases hrest : line.dropWhile text.isKey with _ | ⟨c, rest⟩
  · rw [hrest] at hkv
    cases hkv
  · rw [hrest] at hkv
    by_cases hc : c = '='
    · subst hc
      have hkv : (if line.takeWhile text.isKey = [] then none
          else some (PyStr.rstrip (line.takeWhile text.isKey), PyStr.strip rest)) = some (k, v) :=
        hkv
      by_cases hkey : line.takeWhile text.isKey = []
      · rw [if_pos hkey] at hkv
        cases hkv
      rw [if_neg hkey] at hkv
      have hk := (Prod.mk.inj (Option.some.inj hkv)).1
      refine ⟨(rstripNewline raw).takeWhile PyStr.isSpace, line.takeWhile text.isKey,
        rest ++ raw.rtakeWhile isNewline, ⟨?_, ?_, ?_, ?_⟩, hk⟩
      · have hsplit : line.takeWhile text.isKey ++ '=' :: rest = line := by
          rw [← hrest, takeWhile_append_dropWhile]
        have hline' : (rstripNewline raw).takeWhile PyStr.isSpace ++ line = rstripNewline raw := by
          rw [hline, PyStr.lstrip, takeWhile_append_dropWhile]
        calc raw = rstripNewline raw ++ raw.rtakeWhile isNewline := by
              rw [rstripNewline, rdropWhile_append_rtakeWhile]
          _ = (rstripNewline raw).takeWhile PyStr.isSpace ++ (line.takeWhile text.isKey ++
                '=' :: rest) ++ raw.rtakeWhile isNewline := by rw [hsplit, hline']
          _ = _ := by simp only [append_assoc, cons_append]
      · exact fun c hc => mem_takeWhile_imp hc
      · exact fun c hc => mem_takeWhile_imp hc
      · rcases hfirst : line with _ | ⟨c, tail⟩
        · rw [hfirst] at hrest
          cases hrest
        · have hc : text.isKey c = true := by
            by_contra hno
            rw [hfirst, takeWhile_cons, if_neg hno] at hkey
            exact hkey rfl
          have hspace : PyStr.isSpace c = false := by
            have hnil := dropWhile_eq_self_iff.1
              (dropWhile_idempotent (p := PyStr.isSpace) (l := rstripNewline raw))
            rw [Bool.eq_false_iff]
            intro hs
            rw [hfirst, PyStr.lstrip] at hline
            rw [← hline] at hnil
            exact hnil (Nat.succ_pos _) hs
          refine ⟨c, tail.takeWhile text.isKey, ?_, ?_, hspace⟩
          · rw [takeWhile_cons, if_pos hc]
          · rwa [Text.isKey, hspace, Bool.or_false] at hc
    · have hnone : (none : Option (List Char × List Char)) = some (k, v) := by
        rw [← hkv]
        split
        · next heq => exact absurd (List.cons.inj heq).1 hc
        · rfl
      cases hnone

/-! ## The replaced line -/

theorem isSpace_of_isBlank {c : Char} (h : isBlank c = true) : PyStr.isSpace c = true := by
  rw [isBlank, Bool.or_eq_true, decide_eq_true_eq, decide_eq_true_eq] at h
  rcases h with rfl | rfl <;> rfl

theorem isSpace_of_isNewline {c : Char} (h : isNewline c = true) : PyStr.isSpace c = true := by
  rw [isNewline, Bool.or_eq_true, decide_eq_true_eq, decide_eq_true_eq] at h
  rcases h with rfl | rfl <;> rfl

/-- A comment begins at a hash, on the line. -/
theorem of_findComment {quote : Option Char} {escaped : Bool} {body : List Char} {i : ℕ}
    (h : findComment quote escaped body = some i) :
    ∃ before comment, body = before ++ '#' :: comment ∧ before.length = i ∧
      ∀ c ∈ before, isNewline c = false := by
  induction body generalizing quote escaped i with
  | nil => cases h
  | cons c body ih =>
    have hcons : ∀ {quote' escaped'}, isNewline c = false →
        (findComment quote' escaped' body).map (· + 1) = some i →
          ∃ before comment, c :: body = before ++ '#' :: comment ∧ before.length = i ∧
            ∀ c ∈ before, isNewline c = false := by
      intro quote' escaped' hc hmap
      obtain ⟨j, hj, rfl⟩ := Option.map_eq_some_iff.1 hmap
      obtain ⟨before, comment, rfl, rfl, hall⟩ := ih hj
      exact ⟨c :: before, comment, rfl, rfl, forall_mem_cons.2 ⟨hc, hall⟩⟩
    rw [findComment.eq_def] at h
    dsimp only at h
    by_cases hnewline : isNewline c = true
    · rw [if_pos hnewline] at h
      cases h
    rw [if_neg hnewline] at h
    have hline := Bool.eq_false_iff.2 hnewline
    by_cases hescaped : escaped = true
    · rw [if_pos hescaped] at h
      exact hcons hline h
    rw [if_neg hescaped] at h
    by_cases hbackslash : c.toNat = 92 ∧ quote.isSome = true
    · rw [if_pos hbackslash] at h
      exact hcons hline h
    rw [if_neg hbackslash] at h
    rcases quote with _ | q
    · dsimp only at h
      split_ifs at h with hquote hhash
      · exact hcons hline h
      · cases h
        exact ⟨[], body, by rw [hhash]; rfl, rfl, fun _ h => absurd h not_mem_nil⟩
      · exact hcons hline h
    · exact hcons hline h

/-- What is left of a line after the value: white space, or blanks and a comment. -/
def IsTail (tail : List Char) : Prop :=
  (∀ c ∈ tail, PyStr.isSpace c = true) ∨
    ∃ blank comment, tail = blank ++ '#' :: comment ∧ ∀ c ∈ blank, isBlank c = true

/-- The value, and what is left of the line. -/
theorem valueOf_append (body : List Char) :
    ∃ tail, body = valueOf body ++ tail ∧ IsTail tail := by
  rcases hfind : findComment none false body with _ | i
  · refine ⟨(rstripNewline body).rtakeWhile isBlank ++ body.rtakeWhile isNewline, ?_, .inl ?_⟩
    · have hvalue : valueOf body = (rstripNewline body).rdropWhile isBlank := by
        obtain ⟨newlines, hprefix⟩ := rdropWhile_prefix isNewline (l := body)
        rw [valueOf, hfind, Option.getD_none]
        congr 1
        rw [rstripNewline]
        nth_rewrite 2 [← hprefix]
        exact take_left
      rw [hvalue, ← append_assoc, rdropWhile_append_rtakeWhile, rstripNewline,
        rdropWhile_append_rtakeWhile]
    · intro c hc
      rcases mem_append.1 hc with hc | hc
      · exact isSpace_of_isBlank (mem_rtakeWhile_imp hc)
      · exact isSpace_of_isNewline (mem_rtakeWhile_imp hc)
  · obtain ⟨before, comment, hbody, hlength, -⟩ := of_findComment hfind
    refine ⟨before.rtakeWhile isBlank ++ '#' :: comment, ?_, .inr ⟨_, comment, rfl, ?_⟩⟩
    · have hvalue : valueOf body = before.rdropWhile isBlank := by
        rw [valueOf, hfind, Option.getD_some, ← hlength, hbody, take_left]
      rw [hvalue, ← append_assoc, rdropWhile_append_rtakeWhile, hbody]
    · exact fun c hc => mem_rtakeWhile_imp hc

/-- The value has no newline. -/
theorem not_mem_valueOf {body : List Char} (h : Lines.Terminated body) : '\n' ∉ valueOf body := by
  obtain ⟨before, hno, hbody⟩ := h
  intro hmem
  rcases hfind : findComment none false body with _ | i
  · have hin := (List.rdropWhile_prefix _ _).subset hmem
    obtain ⟨newlines, hprefix⟩ := rdropWhile_prefix isNewline (l := body)
    have htake : body.take (rstripNewline body).length = rstripNewline body := by
      rw [rstripNewline]
      nth_rewrite 2 [← hprefix]
      exact take_left
    rw [hfind, Option.getD_none, htake, hbody, rstripNewline,
      rdropWhile_concat_pos _ _ _ rfl] at hin
    exact hno ((List.rdropWhile_prefix _ _).subset hin)
  · obtain ⟨before, comment, hbody, hlength, hall⟩ := of_findComment hfind
    rw [valueOf, hfind, Option.getD_some, ← hlength, hbody, take_left] at hmem
    cases hall _ ((List.rdropWhile_prefix _ _).subset hmem)

/-- A line that sets a property, and the line with its value replaced. -/
theorem Text.Sets.replace (h : text.Sets blank key rest raw) (value : List Char) :
    ∃ lead tail, rest = lead ++ rest.dropWhile isBlank ∧
      rest.dropWhile isBlank = valueOf (rest.dropWhile isBlank) ++ tail ∧
      (∀ c ∈ lead, isBlank c = true) ∧ IsTail tail ∧
      text.Sets blank key (lead ++ (value ++ tail)) (replacePropertyValue raw value) := by
  obtain ⟨tail, hbody, htail⟩ := valueOf_append (rest.dropWhile isBlank)
  have hno : ∀ c ∈ blank ++ key, (c ≠ '=' : Bool) = true := by
    intro c hc
    rw [decide_eq_true_eq]
    rintro rfl
    rcases mem_append.1 hc with hc | hc
    · cases h.isSpace _ hc
    · cases h.isKey _ hc
  obtain ⟨htake, hdrop⟩ := takeWhile_append_cons (c := '=') hno (decide_eq_false (by simp)) rest
  refine ⟨rest.takeWhile isBlank, tail, ?_, hbody, fun c hc => mem_takeWhile_imp hc, htail, ?_⟩
  · rw [takeWhile_append_dropWhile]
  · refine ⟨?_, h.isSpace, h.isKey, h.first⟩
    have hraw : raw = blank ++ key ++ '=' :: rest := by rw [h.eq, append_assoc]
    have hrest : (rest.dropWhile isBlank).drop (valueOf (rest.dropWhile isBlank)).length =
        tail := by
      have hdrop := congrArg (List.drop (valueOf (rest.dropWhile isBlank)).length) hbody
      rwa [drop_left] at hdrop
    rw [replacePropertyValue, hraw, hdrop, htake]
    dsimp only
    rw [hrest, append_assoc]

/-! ## Flags -/

theorem isSpace_of_mem_flagValue {enabled : Bool} :
    ∀ c ∈ flagValue enabled, PyStr.isSpace c = false := by
  have hall : (flagValue enabled).all (fun c => ! PyStr.isSpace c) = true := by
    rcases enabled with _ | _ <;> decide
  intro c hc
  have hc := List.all_eq_true.1 hall c hc
  rwa [Bool.not_eq_true'] at hc

theorem lstrip_flagValue (enabled : Bool) (after : List Char) :
    PyStr.lstrip (flagValue enabled ++ after) = flagValue enabled ++ after := by
  rcases enabled with _ | _ <;> rfl

theorem strip_append_of_isSpace {lead : List Char} (hlead : ∀ c ∈ lead, PyStr.isSpace c = true)
    (after : List Char) : PyStr.strip (lead ++ after) = PyStr.strip after := by
  rw [PyStr.strip, PyStr.strip, PyStr.lstrip, PyStr.lstrip, dropWhile_append_of_pos hlead]

/-- A flag that has been set is read as that, whatever comment it is before. -/
theorem Text.Plain.scalar_strip (hplain : text.Plain) {lead tail : List Char} (enabled : Bool)
    (hlead : ∀ c ∈ lead, isBlank c = true) (htail : IsTail tail) :
    text.scalar (PyStr.strip (rstripNewline (lead ++ (flagValue enabled ++ tail)))) =
      flagValue enabled := by
  have hlead : ∀ c ∈ lead, PyStr.isSpace c = true := fun c hc => isSpace_of_isBlank (hlead c hc)
  rcases htail with htail | ⟨blank, comment, rfl, hblank⟩
  · obtain ⟨init, c, hvalue, hc⟩ : ∃ init c, flagValue enabled = init ++ [c] ∧
        isNewline c = false := by
      rcases enabled with _ | _
      · exact ⟨['n'], 'o', rfl, rfl⟩
      · exact ⟨['y', 'e'], 's', rfl, rfl⟩
    have hstrip : rstripNewline (lead ++ (flagValue enabled ++ tail)) =
        lead ++ (flagValue enabled ++ rstripNewline tail) := by
      rw [rstripNewline, hvalue, append_assoc, ← append_assoc, singleton_append,
        rdropWhile_append_cons hc, rstripNewline]
      simp only [append_assoc, cons_append, nil_append]
    have hspace : ∀ c ∈ rstripNewline tail, PyStr.isSpace c = true := fun c hc =>
      htail c ((List.rdropWhile_prefix _ _).subset hc)
    rw [hstrip, strip_append_of_isSpace hlead,
      PyStr.strip_append isSpace_of_mem_flagValue hspace, hplain.scalar_flag]
  · have hstrip : rstripNewline (lead ++ (flagValue enabled ++ (blank ++ '#' :: comment))) =
        lead ++ (flagValue enabled ++ (blank ++ '#' :: rstripNewline comment)) := by
      have hhash := rdropWhile_append_cons (p := isNewline) (c := '#') rfl
        (lead ++ (flagValue enabled ++ blank)) comment
      simp only [append_assoc] at hhash
      exact hhash
    have hhash := rdropWhile_append_cons (p := PyStr.isSpace) (c := '#') rfl
      (flagValue enabled ++ blank) (rstripNewline comment)
    simp only [append_assoc] at hhash
    rw [hstrip, strip_append_of_isSpace hlead, PyStr.strip, lstrip_flagValue, PyStr.rstrip, hhash,
      hplain.scalar_comment enabled blank _ hblank]

end ReticulumPi.Rns
