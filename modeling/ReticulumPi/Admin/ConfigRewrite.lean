import ReticulumPi.Admin.ConfigLines
import ReticulumPi.Admin.ConfigTemplate

/-!
# A planned rewrite of legacy paths

A plan is made for the first legacy home that the configuration mentions, and applied
by putting the data directory in its place. That completes (`Completes`) if it raises
nothing, does to the lines that may be rewritten what it should and nothing to the
others (`Migrated`), and leaves nothing to plan. It does exactly where the text and
the homes are `Replaceable`: that a plan is there is not enough (`twoHomes_not_completes`).

Which characters a path goes on from, so that a home after one of them does not begin
a path, is a parameter (`inPath`).
-/

namespace ReticulumPi.Admin.ConfigPaths

open PyStr List

variable {δ : Type*} [DecidableEq δ] {sha256 : List Char → δ} {inPath : Char → Bool}
  {home destination text text' line line' : List Char} {homes lines : List (List Char)}
  {flags : List Bool} {migration : LegacyConfigPathMigration δ}

/-! ## What is promised -/

/-- The lines of the text without what ends them. -/
def bodies (text : List Char) : List (List Char) := (splitlines text).map chomp

/-- A line that may be rewritten: an active one, outside the MeshChat block. -/
def Active (text line : List Char) : Prop :=
  ∃ flags, rewritable ((bodies text).map .read) = .ok flags ∧ (true, line) ∈ flags.zip (bodies text)

variable (inPath)

/-- The line with the data directory for the home, wherever a path begins with it: not
    after a character that a path goes on from. -/
def promised (home destination line : List Char) : List Char :=
  Literal.replace home atBoundary (fun prev => if prev.any inPath then home else destination) line

/-- A line that may be rewritten is, up to what ends it, and any other stays. -/
def LineMigrated (home destination : List Char) (flag : Bool)
    (line line' : List Char) : Prop :=
  if flag then chomp line' = promised inPath home destination (chomp line) ∧ ending line' = ending line
  else line' = line

/-- The lines of one text are those of the other, migrated. -/
def Migrated (home destination text text' : List Char) : Prop :=
  ∃ flags, rewritable ((bodies text).map .read) = .ok flags ∧
    List.Forall₂ (fun p line' => LineMigrated inPath home destination p.1 p.2 line')
      (flags.zip (splitlines text)) (splitlines text')

/-- The migration is applied without an error, the text becomes what it should, and
    another plan finds nothing. -/
structure Completes (sha256 : List Char → δ) (inPath : Char → Bool) (homes : List (List Char))
    (destination text : List Char) (migration : LegacyConfigPathMigration δ)
    (text' : List Char) : Prop where
  applied :
    applyLegacyConfigPathMigration sha256 migration homes destination text = (text', .ok ())
  migrated : Migrated inPath migration.sourcePrefix destination text text'
  planned : planLegacyConfigPathMigration sha256 homes destination text' = .ok none

/-- When a planned rewrite completes. -/
structure Replaceable (homes : List (List Char))
    (destination text home : List Char) : Prop where
  noReturn : '\r' ∉ text
  unbroken : ∀ c ∈ destination, isBreak c = false
  /-- As a replacement template, the data directory stands for itself. -/
  template : expandTemplate home destination = some destination
  begins : ∀ line, Active text line → ∀ prev ∈ Literal.places home atBoundary line,
    prev.any inPath = false
  absolute : ∀ g ∈ homes, g.head? = some '/'
  gone : ∀ g ∈ homes, g ≠ destination → ∀ line, Active text line →
    mentions g (Literal.replace home atBoundary (fun _ => destination) line) = 0

/-! ## Lines that are read -/

theorem universal_true (h : text.head? ≠ some '\n') :
    Lines.universal true text = Lines.universal false text := by
  rcases text with _ | ⟨c, text⟩
  · rfl
  · have hc : c ≠ '\n' := fun hc => h (congrArg some hc)
    rw [Lines.universal, Lines.universal]
    simp [hc]

/-- Other newlines make other endings, but no other lines. -/
theorem map_chomp_readLines (text : List Char) : (readLines text).map chomp = bodies text := by
  refine text_induction (P := fun text =>
    (splitlines (Lines.universal false text)).map chomp = (splitlines text).map chomp)
    rfl (fun c text hc ih => ?_) (fun c text hc hr ih => ?_) (fun text hhead ih => ?_)
    (fun text ih => ?_) text
  · have hr : c ≠ '\r' := by rintro rfl; exact absurd hc (by decide)
    have huniversal : Lines.universal false (c :: text) = c :: Lines.universal false text := by
      rw [Lines.universal, if_neg hr, if_neg (by simp)]
    rw [huniversal, splitlines_cons hc, splitlines_cons hc, map_chomp_prepend hc,
      map_chomp_prepend hc, ih]
  · have huniversal : Lines.universal false (c :: text) = c :: Lines.universal false text := by
      rw [Lines.universal, if_neg hr, if_neg (by simp)]
    rw [huniversal, splitlines_cons_of_isBreak hc hr, splitlines_cons_of_isBreak hc hr,
      map_cons, map_cons, ih]
  · have huniversal : Lines.universal false ('\r' :: text) = '\n' :: Lines.universal false text := by
      rw [Lines.universal, if_pos rfl, universal_true hhead]
    rw [huniversal, splitlines_cons_of_isBreak (by decide) (by decide), splitlines_return hhead,
      map_cons, map_cons, ih]
    rfl
  · have huniversal : Lines.universal false ('\r' :: '\n' :: text) =
        '\n' :: Lines.universal false text := rfl
    rw [huniversal, splitlines_cons_of_isBreak (by decide) (by decide), splitlines_return_newline,
      map_cons, map_cons, ih]
    rfl

theorem readLines_of_noReturn (h : '\r' ∉ text) : readLines text = splitlines text := by
  rw [readLines, Lines.universal_of_not_mem h]

theorem unbroken_of_mem_bodies (h : line ∈ bodies text) : ∀ c ∈ line, isBreak c = false := by
  obtain ⟨l, hl, rfl⟩ := List.mem_map.1 h
  exact fun c hc => isBreak_of_mem_chomp hl hc

theorem isLines_readLines (text : List Char) : IsLines (readLines text) :=
  isLines_splitlines (Lines.not_mem_universal false text)

theorem single_of_isLine {ended : Bool} (h : IsLine line ended) : Single line := by
  obtain ⟨body, e, rfl, hbody, he⟩ := h.split
  refine ⟨body, e, rfl, hbody, ?_⟩
  cases ended
  · exact .inl he.1
  · obtain ⟨c, rfl, hc, -⟩ := he
    exact .inr ⟨c, rfl, hc⟩

/-- The search for the block reads the same of the lines with their endings. -/
theorem map_read_readLines (text : List Char) :
    (readLines text).map .read = (bodies text).map ConfigLine.read := by
  rw [← map_chomp_readLines, List.map_map]
  refine map_congr_left fun line hline => ?_
  obtain ⟨ended, h⟩ := (isLines_readLines text).isLine_of_mem hline
  have hsingle := single_of_isLine h
  refine read_of_alike hsingle.alike_chomp hsingle (single_of_unbroken ?_)
  exact fun c hc => isBreak_of_mem_chomp hline hc

/-! ## Plans -/

omit [DecidableEq δ] in
theorem plan_eq : planLegacyConfigPathMigration sha256 homes destination text =
    (rewritable ((bodies text).map .read)).bind fun flags =>
      (firstMentioned destination (countMentions · flags (bodies text)) homes).map fun found =>
        found.map fun (home, count) => ⟨home, destination, count, sha256 text⟩ := by
  rw [planLegacyConfigPathMigration, map_chomp_readLines]

theorem firstMentioned_eq_none_iff {count : List Char → ℕ} :
    firstMentioned destination count homes = .ok none ↔
      ∀ g ∈ homes, g.head? = some '/' ∧ (g ≠ destination → count g = 0) := by
  induction homes with
  | nil => simp [firstMentioned]
  | cons g homes ih =>
    rw [firstMentioned, forall_mem_cons, ← ih]
    split_ifs with hhead hg hcount
    · simp [hhead]
    · subst hg
      simp only [ne_eq, not_not] at hhead
      simp [hhead]
    · have hne : count g ≠ 0 := Nat.pos_iff_ne_zero.1 hcount
      simp [hg, hne]
    · simp only [ne_eq, not_not] at hhead
      have hzero : count g = 0 := Nat.eq_zero_of_not_pos hcount
      simp [hhead, hzero]

theorem firstMentioned_some {count : List Char → ℕ} {n : ℕ}
    (h : firstMentioned destination count homes = .ok (some (home, n))) :
    home ∈ homes ∧ home.head? = some '/' ∧ home ≠ destination ∧ 0 < count home ∧ n = count home := by
  induction homes with
  | nil => cases h
  | cons g homes ih =>
    rw [firstMentioned] at h
    split_ifs at h with hhead hg hcount
    · obtain ⟨hmem, hrest⟩ := ih h
      exact ⟨mem_cons_of_mem _ hmem, hrest⟩
    · obtain ⟨rfl, rfl⟩ := Prod.mk.inj (Option.some.inj (Except.ok.inj h))
      exact ⟨mem_cons_self, not_not.1 hhead, hg, hcount, rfl⟩
    · obtain ⟨hmem, hrest⟩ := ih h
      exact ⟨mem_cons_of_mem _ hmem, hrest⟩

theorem length_rewritable {l : List ConfigLine} (h : rewritable l = .ok flags) :
    flags.length = l.length := by
  rw [rewritable] at h
  rcases hblock : meshchatServerBlock l with e | block
  · rw [hblock] at h
    cases h
  · rw [hblock] at h
    obtain rfl := Except.ok.inj h
    simp

theorem countMentions_eq_zero_iff : countMentions home flags lines = 0 ↔
    ∀ line, (true, line) ∈ flags.zip lines → mentions home line = 0 := by
  rw [countMentions, List.sum_eq_zero_iff_forall_eq_nat]
  constructor
  · intro h line hline
    exact h _ (List.mem_map.2 ⟨(true, line), hline, rfl⟩)
  · intro h n hn
    obtain ⟨⟨flag, line⟩, hmem, rfl⟩ := List.mem_map.1 hn
    cases flag
    · rfl
    · exact h line hmem

theorem mentions_eq_zero_iff : mentions home line = 0 ↔ Literal.places home atBoundary line = [] :=
  length_eq_zero_iff

omit [DecidableEq δ] in
theorem plan_of_rewritable (h : rewritable ((bodies text).map .read) = .ok flags) :
    planLegacyConfigPathMigration sha256 homes destination text =
      (firstMentioned destination (countMentions · flags (bodies text)) homes).map fun found =>
        found.map fun (home, count) => ⟨home, destination, count, sha256 text⟩ := by
  rw [plan_eq, h]
  rfl

omit [DecidableEq δ] in
/-- A plan finds nothing if no line that may be rewritten mentions another home. -/
theorem plan_eq_none_iff (h : rewritable ((bodies text).map .read) = .ok flags) :
    planLegacyConfigPathMigration sha256 homes destination text = .ok none ↔
      ∀ g ∈ homes, g.head? = some '/' ∧
        (g ≠ destination → countMentions g flags (bodies text) = 0) := by
  rw [plan_of_rewritable h, ← firstMentioned_eq_none_iff]
  rcases firstMentioned destination (countMentions · flags (bodies text)) homes with e | _ | found
  · exact ⟨fun h => (nomatch h), fun h => (nomatch h)⟩
  · exact ⟨fun _ => rfl, fun _ => rfl⟩
  · exact ⟨fun h => (nomatch h), fun h => (nomatch h)⟩

omit [DecidableEq δ] in
theorem plan_eq_some (h : planLegacyConfigPathMigration sha256 homes destination text =
    .ok (some migration)) :
    ∃ flags home, rewritable ((bodies text).map .read) = .ok flags ∧ home ∈ homes ∧
      home.head? = some '/' ∧ home ≠ destination ∧ 0 < countMentions home flags (bodies text) ∧
      migration = ⟨home, destination, countMentions home flags (bodies text), sha256 text⟩ := by
  rcases hflags : rewritable ((bodies text).map .read) with e | flags
  · rw [plan_eq, hflags] at h
    cases h
  · rw [plan_of_rewritable hflags] at h
    rcases hfirst : firstMentioned destination (countMentions · flags (bodies text)) homes with
      e | _ | ⟨home, n⟩
    · rw [hfirst] at h
      cases h
    · rw [hfirst] at h
      cases h
    · rw [hfirst] at h
      obtain ⟨hmem, hhead, hne, hpos, rfl⟩ := firstMentioned_some hfirst
      exact ⟨flags, home, rfl, hmem, hhead, hne, hpos, (Option.some.inj (Except.ok.inj h)).symm⟩

/-! ## Mentions and endings -/

/-- Where a home is mentioned it has no character that ends lines. -/
theorem unbroken_of_mentions (hhome : home.head? = some '/')
    (hline : ∀ c ∈ line, isBreak c = false) (h : mentions home line ≠ 0) :
    ∀ c ∈ home, isBreak c = false := by
  have hne : home ≠ [] := by rintro rfl; cases hhome
  exact fun c hc => hline c (Literal.mem_of_places hne (fun h' => h (mentions_eq_zero_iff.2 h')) hc)

theorem ends_of_isBreak {c : Char} (hhome : ∀ c ∈ home, isBreak c = false) (hc : isBreak c = true) :
    Literal.Ends atBoundary home c where
  notMem hmem := by
    rw [hhome c hmem] at hc
    cases hc
  append s := by
    rcases s with _ | ⟨d, s⟩
    · simp [atBoundary, isBoundary, isSpace_of_isBreak hc]
    · rfl

theorem replace_eq_chomp (hne : home ≠ []) (hhome : ∀ c ∈ home, isBreak c = false)
    (r : Option Char → List Char) (line : List Char) :
    Literal.replace home atBoundary r line =
      Literal.replace home atBoundary r (chomp line) ++ ending line := by
  conv_lhs => rw [← chomp_append_ending line]
  exact Literal.replace_append_of_ends (fun c hc => ends_of_isBreak hhome (isBreak_of_mem_ending hc)) hne

theorem mentions_chomp (hne : home ≠ []) (hhome : ∀ c ∈ home, isBreak c = false) (line : List Char) :
    mentions home (chomp line) = mentions home line := by
  rw [mentions, mentions]
  conv_rhs => rw [← chomp_append_ending line]
  rw [Literal.places_append_of_ends (fun c hc => ends_of_isBreak hhome (isBreak_of_mem_ending hc)) hne]

variable {r : Option Char → List Char}

theorem unbroken_replace (hne : home ≠ [])
    (hr : ∀ p, ∀ c ∈ r p, isBreak c = false) (hline : ∀ c ∈ line, isBreak c = false) :
    ∀ c ∈ Literal.replace home atBoundary r line, isBreak c = false := fun c hc =>
  (Literal.mem_of_mem_replace hne hc).elim (hline c) fun ⟨p, hp⟩ => hr p c hp

/-- A path in the place of another leaves what is read of a line. -/
theorem alike_replace (hhome : home.head? = some '/')
    (hr : ∀ p, (r p).head? = some '/') (line : List Char) :
    Alike (Literal.replace home atBoundary r line) line := by
  have hne : home ≠ [] := by rintro rfl; cases hhome
  refine Literal.scan_induction atBoundary hne (P := fun prev line =>
    Alike (Literal.replaceFrom home atBoundary r 0 prev line) line)
    (fun prev => .nil) (fun prev c s hno ih => ?_) (fun prev s hok ih => ?_) none line
  · rw [Literal.replaceFrom_keep hno]
    exact .keep c ih
  · rw [Literal.replaceFrom_place hne hok]
    exact .path (hr prev) hhome ih

/-! ## Rewritten lines -/

/-- A line that may be rewritten, with what `r` says at each mention of the home. -/
def rewriteLine (home : List Char) (r : Option Char → List Char) (flag : Bool) (line : List Char) :
    List Char :=
  if flag then Literal.replace home atBoundary r line else line

theorem migrate_eq (replacement : List Char) : migrate home replacement flags lines =
    List.zipWith (rewriteLine home fun _ => replacement) flags lines := rfl

theorem zip_zipWith {f : Bool → List Char → List Char} :
    flags.zip (List.zipWith f flags lines) = (flags.zip lines).map fun p => (p.1, f p.1 p.2) := by
  induction flags generalizing lines with
  | nil => rfl
  | cons flag flags ih =>
    rcases lines with _ | ⟨line, lines⟩
    · rfl
    · exact congrArg (_ :: ·) ih

theorem zipWith_eq_map {f : Bool → List Char → List Char} :
    List.zipWith f flags lines = (flags.zip lines).map fun p => f p.1 p.2 :=
  map_uncurry_zip_eq_zipWith.symm

/-- Where each line is read as it was, the lines are. -/
theorem map_snd_zip_map {β : Type*} (g : List Char → β) (hlen : flags.length = lines.length) :
    ((flags.zip lines).map fun p => g p.2) = lines.map g := by
  rw [← Function.comp_def g Prod.snd, ← List.map_map, map_snd_zip hlen.ge]

theorem map_read_rewrite (hhome : home.head? = some '/')
    (hr : ∀ p, (r p).head? = some '/') (hlen : flags.length = lines.length)
    (hlines : ∀ line ∈ lines, ∀ c ∈ line, isBreak c = false)
    (hnew : ∀ line ∈ List.zipWith (rewriteLine home r) flags lines, ∀ c ∈ line, isBreak c = false) :
    (List.zipWith (rewriteLine home r) flags lines).map .read = lines.map ConfigLine.read := by
  rw [zipWith_eq_map] at hnew ⊢
  rw [List.map_map, ← map_snd_zip_map _ hlen]
  refine map_congr_left fun p hp => ?_
  refine read_of_alike ?_ (single_of_unbroken (hnew _ (List.mem_map_of_mem hp)))
    (single_of_unbroken (hlines _ (of_mem_zip hp).2))
  change Alike (rewriteLine home r p.1 p.2) p.2
  rw [rewriteLine]
  split_ifs
  · exact alike_replace hhome hr _
  · exact Alike.refl _

theorem countMentions_zipWith_eq_zero_iff {g : List Char} :
    countMentions g flags (List.zipWith (rewriteLine home r) flags lines) = 0 ↔
      ∀ line, (true, line) ∈ flags.zip lines →
        mentions g (Literal.replace home atBoundary r line) = 0 := by
  rw [countMentions_eq_zero_iff, zip_zipWith]
  constructor
  · intro h line hline
    exact h _ (List.mem_map.2 ⟨(true, line), hline, rfl⟩)
  · intro h line' hline'
    obtain ⟨⟨flag, line⟩, hline, heq⟩ := List.mem_map.1 hline'
    obtain ⟨rfl, rfl⟩ := Prod.mk.inj heq
    exact h line hline

/-- The mentions are those in the lines without their endings. -/
theorem countMentions_readLines (hne : home ≠ []) (hhome : ∀ c ∈ home, isBreak c = false) :
    countMentions home flags (readLines text) = countMentions home flags (bodies text) := by
  rw [← map_chomp_readLines, countMentions, countMentions, zip_map_right, List.map_map]
  refine congrArg List.sum (map_congr_left fun p _ => ?_)
  obtain ⟨flag, line⟩ := p
  cases flag
  · rfl
  · exact (mentions_chomp hne hhome line).symm

theorem exists_of_countMentions_pos (h : 0 < countMentions home flags lines) :
    ∃ line, (true, line) ∈ flags.zip lines ∧ mentions home line ≠ 0 := by
  by_contra hno
  push Not at hno
  rw [countMentions_eq_zero_iff.2 hno] at h
  exact h.false

/-- What applying a planned migration comes to. -/
theorem apply_eq_ok_iff (hflags : rewritable ((bodies text).map .read) = .ok flags)
    (hhome : home.head? = some '/') (hpos : 0 < countMentions home flags (bodies text)) :
    applyLegacyConfigPathMigration sha256
        ⟨home, destination, countMentions home flags (bodies text), sha256 text⟩ homes destination
        text = (text', .ok ()) ↔
      ∃ x, expandTemplate home destination = some x ∧
        text' = (migrate home x flags (readLines text)).flatten ∧
        planLegacyConfigPathMigration sha256 homes destination text' = .ok none := by
  have hne : home ≠ [] := by rintro rfl; cases hhome
  obtain ⟨line, hline, hmention⟩ := exists_of_countMentions_pos hpos
  have hunbroken := unbroken_of_mentions hhome
    (unbroken_of_mem_bodies (of_mem_zip hline).2) hmention
  have htrue : true ∈ flags := (of_mem_zip hline).1
  rw [applyLegacyConfigPathMigration, if_neg (not_not.2 rfl)]
  dsimp only
  rw [map_read_readLines, hflags]
  dsimp only
  rw [migrateWith, if_pos htrue]
  rcases expandTemplate home destination with _ | x
  · refine ⟨fun h => ?_, fun ⟨x, hx, _⟩ => (nomatch hx)⟩
    cases (Prod.mk.inj h).2
  · rw [Option.map_some]
    dsimp only
    rw [if_neg (not_not.2 (countMentions_readLines hne hunbroken))]
    rcases hplan : planLegacyConfigPathMigration sha256 homes destination
      (migrate home x flags (readLines text)).flatten with e | _ | found
    · refine ⟨fun h => ?_, ?_⟩
      · cases (Prod.mk.inj h).2
      · rintro ⟨y, hy, rfl, h⟩
        cases hy
        rw [hplan] at h
        cases h
    · refine ⟨fun h => ?_, ?_⟩
      · obtain ⟨rfl, -⟩ := Prod.mk.inj h
        exact ⟨x, rfl, rfl, hplan⟩
      · rintro ⟨y, hy, rfl, -⟩
        cases hy
        rfl
    · refine ⟨fun h => ?_, ?_⟩
      · cases (Prod.mk.inj h).2
      · rintro ⟨y, hy, rfl, h⟩
        cases hy
        rw [hplan] at h
        cases h

/-! ## The lines of a rewritten text -/

theorem isLine_rewriteLine {ended : Bool} (hne : home ≠ []) (hhome : ∀ c ∈ home, isBreak c = false)
    (hr : ∀ p, r p ≠ []) (hbroken : ∀ p, ∀ c ∈ r p, isBreak c = false)
    (flag : Bool) (h : IsLine line ended) : IsLine (rewriteLine home r flag line) ended := by
  rw [rewriteLine]
  split_ifs
  swap
  · exact h
  obtain ⟨body, e, rfl, hbody, he⟩ := h.split
  refine ⟨Literal.replace home atBoundary r body, e, ?_, unbroken_replace hne hbroken hbody, ?_⟩
  · refine Literal.replace_append_of_ends (fun c hc => ends_of_isBreak hhome ?_) hne
    cases ended
    · rw [he.1] at hc
      cases hc
    · obtain ⟨d, rfl, hd, -⟩ := he
      rwa [mem_singleton.1 hc]
  · cases ended
    · exact ⟨he.1, Literal.replace_ne_nil hne hr he.2⟩
    · exact he

theorem isLines_rewrite (hne : home ≠ []) (hhome : ∀ c ∈ home, isBreak c = false)
    (hr : ∀ p, r p ≠ []) (hbroken : ∀ p, ∀ c ∈ r p, isBreak c = false)
    (hlines : IsLines lines) : IsLines (List.zipWith (rewriteLine home r) flags lines) := by
  induction lines generalizing flags with
  | nil =>
    rw [zipWith_nil_right]
    trivial
  | cons line lines ih =>
    rcases flags with _ | ⟨flag, flags⟩
    · trivial
    · rw [zipWith_cons_cons]
      refine ⟨?_, ih hlines.2⟩
      rcases hlines.1 with h | ⟨h, rfl⟩
      · exact .inl (isLine_rewriteLine hne hhome hr hbroken flag h)
      · exact .inr ⟨isLine_rewriteLine hne hhome hr hbroken flag h, zipWith_nil_right⟩

variable {inPath}

/-- The lines of a migrated text, without their endings, are those of the other text,
    rewritten. -/
theorem Migrated.bodies_eq (h : Migrated inPath home destination text text')
    (hflags : rewritable ((bodies text).map .read) = .ok flags) :
    bodies text' = List.zipWith
      (rewriteLine home fun prev => if prev.any inPath then home else destination) flags
      (bodies text) := by
  obtain ⟨flags', hflags', hlines⟩ := h
  obtain rfl := Except.ok.inj (hflags.symm.trans hflags')
  rw [zipWith_eq_map, bodies, bodies, zip_map_right, List.map_map]
  generalize flags.zip (splitlines text) = l at hlines ⊢
  generalize splitlines text' = l' at hlines ⊢
  induction hlines with
  | nil => rfl
  | @cons p line' l l' hline _ ih =>
    rw [map_cons, map_cons, ih]
    refine congrArg (· :: _) ?_
    obtain ⟨flag, line⟩ := p
    rw [LineMigrated] at hline
    cases flag
    · exact congrArg chomp hline
    · exact hline.1

theorem Migrated.map_ending (h : Migrated inPath home destination text text') :
    (splitlines text').map ending = (splitlines text).map ending := by
  obtain ⟨flags, hflags, hlines⟩ := h
  have hlen : flags.length = (splitlines text).length := by
    rw [length_rewritable hflags, length_map, bodies, length_map]
  rw [← map_snd_zip_map _ hlen]
  generalize flags.zip (splitlines text) = l at hlines ⊢
  generalize splitlines text' = l' at hlines ⊢
  induction hlines with
  | nil => rfl
  | @cons p line' l l' hline _ ih =>
    rw [map_cons, map_cons, ih]
    refine congrArg (· :: _) ?_
    obtain ⟨flag, line⟩ := p
    rw [LineMigrated] at hline
    cases flag
    · exact congrArg ending hline
    · exact hline.2

/-! ## When a rewrite completes -/

theorem rewriteLine_eq (hne : home ≠ []) (hhome : ∀ c ∈ home, isBreak c = false)
    (flag : Bool) (line : List Char) :
    rewriteLine home r flag line = rewriteLine home r flag (chomp line) ++ ending line := by
  cases flag
  · exact (chomp_append_ending line).symm
  · exact replace_eq_chomp hne hhome r line

theorem chomp_rewriteLine (hne : home ≠ []) (hhome : ∀ c ∈ home, isBreak c = false)
    (hr : ∀ p, ∀ c ∈ r p, isBreak c = false) (flag : Bool)
    (hline : ∀ c ∈ chomp line, isBreak c = false) :
    chomp (rewriteLine home r flag line) = rewriteLine home r flag (chomp line) ∧
      ending (rewriteLine home r flag line) = ending line := by
  rw [rewriteLine_eq hne hhome]
  refine chomp_append ?_ fun c hc => isBreak_of_mem_ending hc
  cases flag
  · exact hline
  · exact unbroken_replace hne hr hline

/-- Where no mention comes after a character that a path goes on from, every mention is
    to become the data directory. -/
theorem rewrite_promised (hbegins : ∀ line, (true, line) ∈ flags.zip lines →
      ∀ prev ∈ Literal.places home atBoundary line, prev.any inPath = false) (hne : home ≠ []) :
    List.zipWith (rewriteLine home fun prev => if prev.any inPath then home else destination) flags
        lines =
      List.zipWith (rewriteLine home fun _ => destination) flags lines := by
  rw [zipWith_eq_map, zipWith_eq_map]
  refine map_congr_left fun p hp => ?_
  obtain ⟨flag, line⟩ := p
  cases flag
  · rfl
  · refine Literal.replace_congr hne fun prev hprev => ?_
    rw [hbegins line hp prev hprev]
    rfl

theorem completes_of_replaceable (hflags : rewritable ((bodies text).map .read) = .ok flags)
    (hhome : home.head? = some '/') (hd : destination.head? = some '/')
    (hpos : 0 < countMentions home flags (bodies text))
    (h : Replaceable inPath homes destination text home) :
    ∃ text', Completes sha256 inPath homes destination text
      ⟨home, destination, countMentions home flags (bodies text), sha256 text⟩ text' := by
  have hne : home ≠ [] := by rintro rfl; cases hhome
  have hdne : destination ≠ [] := by rintro rfl; cases hd
  obtain ⟨line, hline, hmention⟩ := exists_of_countMentions_pos hpos
  have hunbroken := unbroken_of_mentions hhome
    (unbroken_of_mem_bodies (of_mem_zip hline).2) hmention
  have hlen : flags.length = (bodies text).length := by
    rw [length_rewritable hflags, length_map]
  have hread := readLines_of_noReturn h.noReturn
  obtain ⟨text', htext'⟩ : ∃ text', text' =
    (List.zipWith (rewriteLine home fun _ => destination) flags (splitlines text)).flatten := ⟨_, rfl⟩
  have hsplit : splitlines text' =
      List.zipWith (rewriteLine home fun _ => destination) flags (splitlines text) := by
    rw [htext']
    exact splitlines_flatten (isLines_rewrite hne hunbroken (fun _ => hdne) (fun _ => h.unbroken)
      (isLines_splitlines h.noReturn))
  have hbegins : ∀ line, (true, line) ∈ flags.zip (bodies text) →
      ∀ prev ∈ Literal.places home atBoundary line, prev.any inPath = false :=
    fun line hline => h.begins line ⟨flags, hflags, hline⟩
  have hmigrated : Migrated inPath home destination text text' := by
    refine ⟨flags, hflags, ?_⟩
    rw [hsplit, zipWith_eq_map, forall₂_map_right_iff, forall₂_same]
    rintro ⟨flag, line⟩ hmem
    have hline : (flag, chomp line) ∈ flags.zip (bodies text) := by
      rw [bodies, zip_map_right]
      exact List.mem_map.2 ⟨_, hmem, rfl⟩
    obtain ⟨hchomp, hending⟩ := chomp_rewriteLine hne hunbroken (fun _ => h.unbroken) flag
      (unbroken_of_mem_bodies (of_mem_zip hline).2)
    rw [LineMigrated]
    cases flag
    · rfl
    · refine ⟨hchomp.trans (Literal.replace_congr hne fun prev hprev => ?_), hending⟩
      rw [hbegins _ hline prev hprev]
      rfl
  have hbodies : bodies text' =
      List.zipWith (rewriteLine home fun _ => destination) flags (bodies text) := by
    rw [hmigrated.bodies_eq hflags, rewrite_promised hbegins hne]
  have hflags' : rewritable ((bodies text').map .read) = .ok flags := by
    rw [hbodies, map_read_rewrite hhome (fun _ => hd) hlen (fun line => unbroken_of_mem_bodies)]
    · exact hflags
    · rw [← hbodies]
      exact fun line => unbroken_of_mem_bodies
  have hplanned : planLegacyConfigPathMigration sha256 homes destination text' = .ok none := by
    rw [plan_eq_none_iff hflags', hbodies]
    refine fun g hg => ⟨h.absolute g hg, fun hgd => ?_⟩
    rw [countMentions_zipWith_eq_zero_iff]
    exact fun line hline => h.gone g hg hgd line ⟨flags, hflags, hline⟩
  refine ⟨text', (apply_eq_ok_iff hflags hhome hpos).2 ⟨destination, h.template, ?_, hplanned⟩,
    hmigrated, hplanned⟩
  rw [htext', hread]
  rfl

/-! ## What a rewrite that completes needs -/

/-- A path in the place of a home is a boundary as the home was. -/
theorem atBoundary_replaceFrom (hr : ∀ p, (r p).head? = some '/')
    (prev : Option Char) {s : List Char} (h : atBoundary s = true) :
    atBoundary (Literal.replaceFrom home atBoundary r 0 prev s) = true := by
  rcases s with _ | ⟨c, s⟩
  · rfl
  · rcases hocc : Literal.occursAt home atBoundary (c :: s) with _ | _
    · rw [Literal.replaceFrom_keep hocc]
      exact h
    · rw [Literal.replaceFrom, if_pos hocc, atBoundary, head?_append, hr]
      rfl

/-- A mention that is left as it is, is one of the rewritten line. -/
theorem mentions_replace_ne_zero (hhome : home.head? = some '/')
    (hr : ∀ p, (r p).head? = some '/') {prev : Option Char}
    (hprev : prev ∈ Literal.places home atBoundary line) (hkeep : r prev = home) :
    mentions home (Literal.replace home atBoundary r line) ≠ 0 := by
  have hne : home ≠ [] := by rintro rfl; cases hhome
  obtain ⟨t, ht, hocc⟩ := Literal.exists_occursAt_replace hne
    (fun p s hok => atBoundary_replaceFrom hr p hok) hprev hkeep
  rw [Ne, mentions_eq_zero_iff, Literal.places_eq_nil_iff hne]
  intro h
  rw [h t ht] at hocc
  cases hocc

theorem length_flatten_rewrite (hne : home ≠ []) (u : List Char) (hlen : flags.length = lines.length) :
    (List.zipWith (rewriteLine home fun _ => u) flags lines).flatten.length +
        countMentions home flags lines * home.length =
      lines.flatten.length + countMentions home flags lines * u.length := by
  induction lines generalizing flags with
  | nil =>
    obtain rfl := length_eq_zero_iff.1 hlen
    simp [countMentions]
  | cons line lines ih =>
    obtain ⟨flag, flags, rfl⟩ := exists_cons_of_length_eq_add_one hlen
    have hrest := ih (Nat.succ.inj hlen)
    have hcount : countMentions home (flag :: flags) (line :: lines) =
        (if flag then mentions home line else 0) + countMentions home flags lines := by
      rw [countMentions, zip_cons_cons, map_cons, sum_cons]
      rfl
    rw [zipWith_cons_cons, flatten_cons, flatten_cons, length_append,
      length_append, hcount, Nat.add_mul, Nat.add_mul]
    cases flag
    · simp only [rewriteLine, Bool.false_eq_true, if_false]
      omega
    · have hline := Literal.length_replace hne atBoundary u line
      simp only [rewriteLine, if_true, mentions]
      omega

/-- What has been put in for the home can be read off the rewritten text. -/
theorem eq_of_flatten_rewrite_eq (hne : home ≠ []) {u u' : List Char}
    (hlen : flags.length = lines.length) (hpos : 0 < countMentions home flags lines)
    (h : (List.zipWith (rewriteLine home fun _ => u) flags lines).flatten =
      (List.zipWith (rewriteLine home fun _ => u') flags lines).flatten) : u = u' := by
  have hu : u.length = u'.length := by
    have h₁ := length_flatten_rewrite hne u hlen
    have h₂ := length_flatten_rewrite hne u' hlen
    rw [h] at h₁
    exact Nat.eq_of_mul_eq_mul_left hpos (by omega)
  have heq : List.zipWith (rewriteLine home fun _ => u) flags lines =
      List.zipWith (rewriteLine home fun _ => u') flags lines := by
    refine eq_iff_flatten_eq.2 ⟨h, ?_⟩
    rw [zipWith_eq_map, zipWith_eq_map, List.map_map, List.map_map]
    refine map_congr_left fun p _ => ?_
    obtain ⟨flag, line⟩ := p
    cases flag
    · rfl
    · have h₁ := Literal.length_replace hne atBoundary u line
      have h₂ := Literal.length_replace hne atBoundary u' line
      rw [hu] at h₁
      exact Nat.add_right_cancel (h₁.trans h₂.symm)
  obtain ⟨line, hline, hmention⟩ := exists_of_countMentions_pos hpos
  rw [zipWith_eq_map, zipWith_eq_map, map_inj_left] at heq
  exact Literal.eq_of_replace_eq hne hu (fun hnil => hmention (mentions_eq_zero_iff.2 hnil))
    (heq _ hline)

/-- A rewritten text without all that ends its lines. -/
theorem filter_rewriteLine (hne : home ≠ []) (hhome : ∀ c ∈ home, isBreak c = false) (x : List Char)
    (flag : Bool) (hline : ∀ c ∈ chomp line, isBreak c = false) :
    (rewriteLine home (fun _ => x) flag line).filter (fun c => !isBreak c) =
      rewriteLine home (fun _ => x.filter fun c => !isBreak c) flag (chomp line) := by
  have hend : (ending line).filter (fun c => !isBreak c) = [] :=
    List.filter_eq_nil_iff.2 fun c hc => by simp [isBreak_of_mem_ending hc]
  rw [rewriteLine_eq hne hhome, filter_append, hend, append_nil]
  cases flag
  · exact filter_eq_self.2 fun c hc => by simp [hline c hc]
  · exact Literal.filter_replace hne fun c hc => by simp [hline c hc]

/-- Texts that read alike, and end their lines alike, are the same. -/
theorem noReturn_of_endings
    (h : (readLines text).map ending = (splitlines text).map ending) : '\r' ∉ text := by
  have hlines : ∀ l l' : List (List Char), l.map chomp = l'.map chomp → l.map ending = l'.map ending →
      l.flatten = l'.flatten := by
    intro l
    induction l with
    | nil =>
      intro l' hl _
      rw [map_eq_nil_iff.1 hl.symm]
    | cons line l ih =>
      intro l' hchomp hending
      rcases l' with _ | ⟨line', l'⟩
      · cases hchomp
      · obtain ⟨h₁, h₂⟩ := List.cons.inj hchomp
        obtain ⟨h₃, h₄⟩ := List.cons.inj hending
        rw [flatten_cons, flatten_cons, eq_of_chomp_eq h₁ h₃, ih l' h₂ h₄]
  have hflat := hlines _ _ (map_chomp_readLines text) h
  rw [readLines, flatten_splitlines, flatten_splitlines] at hflat
  rw [← hflat]
  exact Lines.not_mem_universal false text

theorem replaceable_of_completes (hflags : rewritable ((bodies text).map .read) = .ok flags)
    (hhome : home.head? = some '/') (hmem : home ∈ homes) (hneq : home ≠ destination)
    (hd : destination.head? = some '/') (hpos : 0 < countMentions home flags (bodies text))
    (h : Completes sha256 inPath homes destination text
      ⟨home, destination, countMentions home flags (bodies text), sha256 text⟩ text') :
    Replaceable inPath homes destination text home := by
  have hne : home ≠ [] := by rintro rfl; cases hhome
  have hdne : destination ≠ [] := by rintro rfl; cases hd
  obtain ⟨line, hline, hmention⟩ := exists_of_countMentions_pos hpos
  have hunbroken := unbroken_of_mentions hhome
    (unbroken_of_mem_bodies (of_mem_zip hline).2) hmention
  have hlen : flags.length = (bodies text).length := by
    rw [length_rewritable hflags, length_map]
  have hactive : ∀ {line}, Active text line → (true, line) ∈ flags.zip (bodies text) := by
    rintro line ⟨flags', hflags', hline⟩
    obtain rfl := Except.ok.inj (hflags.symm.trans hflags')
    exact hline
  have hr : ∀ prev : Option Char,
      (if prev.any inPath then home else destination).head? = some '/' := fun prev => by
    split_ifs
    · exact hhome
    · exact hd
  have hbodies := h.migrated.bodies_eq hflags
  -- The lines of the text that is written are read as they were.
  have hflags' : rewritable ((bodies text').map .read) = .ok flags := by
    rw [hbodies, map_read_rewrite hhome hr hlen (fun line => unbroken_of_mem_bodies)]
    · exact hflags
    · rw [← hbodies]
      exact fun line => unbroken_of_mem_bodies
  have hgone := (plan_eq_none_iff hflags').1 h.planned
  rw [hbodies] at hgone
  have hzero : ∀ g ∈ homes, g ≠ destination → ∀ line, (true, line) ∈ flags.zip (bodies text) →
      mentions g (Literal.replace home atBoundary
        (fun prev => if prev.any inPath then home else destination) line) = 0 :=
    fun g hg hgd => countMentions_zipWith_eq_zero_iff.1 ((hgone g hg).2 hgd)
  have hbegins : ∀ line, (true, line) ∈ flags.zip (bodies text) →
      ∀ prev ∈ Literal.places home atBoundary line, prev.any inPath = false := by
    intro line hline prev hprev
    by_contra hin
    rw [Bool.not_eq_false] at hin
    exact mentions_replace_ne_zero hhome hr hprev (if_pos hin) (hzero home hmem hneq line hline)
  rw [rewrite_promised hbegins hne] at hbodies
  have hbroken : ∀ c ∈ destination, isBreak c = false := by
    intro c hc
    have hnew : Literal.replace home atBoundary (fun _ => destination) line ∈ bodies text' := by
      rw [hbodies, zipWith_eq_map]
      exact List.mem_map.2 ⟨_, hline, rfl⟩
    refine unbroken_of_mem_bodies hnew c (Literal.mem_replace_of_places hne hc fun hnil => ?_)
    exact hmention (mentions_eq_zero_iff.2 hnil)
  obtain ⟨x, hx, htext', -⟩ := (apply_eq_ok_iff hflags hhome hpos).1 h.applied
  have hreadLen : flags.length = (readLines text).length := by
    rw [hlen, ← map_chomp_readLines, length_map]
  obtain rfl : x = destination := by
    -- Without what ends lines, both rewritten texts are the same.
    have hflat := filter_isBreak text'
    change _ = (bodies text').flatten at hflat
    rw [hbodies, htext', filter_flatten, migrate_eq, zipWith_eq_map, List.map_map] at hflat
    have hmap : ((flags.zip (readLines text)).map ((List.filter fun c => !isBreak c) ∘ fun p =>
        rewriteLine home (fun _ => x) p.1 p.2)) = List.zipWith
          (rewriteLine home fun _ => x.filter fun c => !isBreak c) flags (bodies text) := by
      rw [← map_chomp_readLines, zipWith_eq_map, zip_map_right, List.map_map]
      refine map_congr_left fun p hp => filter_rewriteLine hne hunbroken x p.1 ?_
      exact fun c hc => isBreak_of_mem_chomp (of_mem_zip hp).2 hc
    rw [hmap] at hflat
    exact expandTemplate_eq_self hhome hbroken hx
      (eq_of_flatten_rewrite_eq hne hlen hpos hflat)
  refine ⟨noReturn_of_endings ?_, hbroken, hx, fun line hl => hbegins line (hactive hl),
    fun g hg => (hgone g hg).1, fun g hg hgd line hl => ?_⟩
  · have hsplit : splitlines text' =
        List.zipWith (rewriteLine home fun _ => x) flags (readLines text) := by
      rw [htext']
      exact splitlines_flatten (isLines_rewrite hne hunbroken (fun _ => hdne) (fun _ => hbroken)
        (isLines_readLines text))
    rw [← h.migrated.map_ending, hsplit, zipWith_eq_map, List.map_map, ← map_snd_zip_map _ hreadLen]
    refine map_congr_left fun p hp => Eq.symm ?_
    refine (chomp_rewriteLine hne hunbroken (fun _ => hbroken) p.1 ?_).2
    exact fun c hc => isBreak_of_mem_chomp (of_mem_zip hp).2 hc
  · rw [← hzero g hg hgd line (hactive hl)]
    refine congrArg (mentions g) (Literal.replace_congr hne fun prev hprev => ?_)
    rw [hbegins line (hactive hl) prev hprev]
    rfl

/-- A planned rewrite is applied without an error, with the text as promised and nothing
    left to plan, exactly if the text has no carriage returns, the data directory stands
    for itself as a template and breaks no line, no mention of the home comes in the middle
    of a path, and with the data directory in its place no home is mentioned any more. -/
theorem completes_iff_replaceable (inPath : Char → Bool)
    (hplan : planLegacyConfigPathMigration sha256 homes destination text = .ok (some migration))
    (hd : destination.head? = some '/') :
    (∃ text', Completes sha256 inPath homes destination text migration text') ↔
      Replaceable inPath homes destination text migration.sourcePrefix := by
  obtain ⟨flags, home, hflags, hmem, hhome, hneq, hpos, rfl⟩ := plan_eq_some hplan
  constructor
  · rintro ⟨text', h⟩
    exact replaceable_of_completes hflags hhome hmem hneq hd hpos h
  · exact completes_of_replaceable hflags hhome hd hpos

/-- A text with a home in a comment and in a path. -/
def oneHome : List Char := "# /home/pi\nstate: /home/pi/state\n".toList

theorem completes_iff_replaceable_oneHome :
    planLegacyConfigPathMigration id ["/home/pi".toList] "/var/lib/reticulumpi".toList oneHome =
        .ok (some ⟨"/home/pi".toList, "/var/lib/reticulumpi".toList, 1, oneHome⟩) ∧
      ((∃ text', Completes id Char.isAlphanum ["/home/pi".toList] "/var/lib/reticulumpi".toList
          oneHome ⟨"/home/pi".toList, "/var/lib/reticulumpi".toList, 1, oneHome⟩ text') ↔
        Replaceable Char.isAlphanum ["/home/pi".toList] "/var/lib/reticulumpi".toList oneHome
          "/home/pi".toList) := by
  have hplan : planLegacyConfigPathMigration id ["/home/pi".toList] "/var/lib/reticulumpi".toList
      oneHome = .ok (some ⟨"/home/pi".toList, "/var/lib/reticulumpi".toList, 1, oneHome⟩) := by
    rfl
  exact ⟨hplan, completes_iff_replaceable Char.isAlphanum hplan rfl⟩

/-- A text with two homes. -/
def twoHomes : List Char := "state: /home/pi/state\ncache: /home/rns/cache\n".toList

/-- The first of two homes is rewritten, and the text is written; then the second one is
    found, and an error raised. -/
theorem twoHomes_not_completes :
    planLegacyConfigPathMigration id ["/home/pi".toList, "/home/rns".toList]
        "/var/lib/reticulumpi".toList twoHomes =
      .ok (some ⟨"/home/pi".toList, "/var/lib/reticulumpi".toList, 1, twoHomes⟩) ∧
    applyLegacyConfigPathMigration id ⟨"/home/pi".toList, "/var/lib/reticulumpi".toList, 1, twoHomes⟩
        ["/home/pi".toList, "/home/rns".toList] "/var/lib/reticulumpi".toList twoHomes =
      ("state: /var/lib/reticulumpi/state\ncache: /home/rns/cache\n".toList,
        .error (.adminError "legacy configuration path migration did not validate")) := by
  constructor
  · rfl
  · rfl

end ReticulumPi.Admin.ConfigPaths
