import ReticulumPi.Admin.ConfigPaths

/-!
# Lines that read alike

What the search for the MeshChat block reads of a line does not change when the
line loses its ending, or when a path in it becomes another (`Alike`): the
block is where it was (`read_of_alike`). A line is that of a key, with nothing
but a comment after it, by what comes after its indentation (`Keyed`).
-/

namespace ReticulumPi.Admin.ConfigPaths

open PyStr List

variable {l l' key s : List Char} {c : Char}

/-! ## Alike -/

/-- The lines are the same but for texts that begin with a slash, and for the
    character that ends them. -/
inductive Alike : List Char → List Char → Prop
  | nil : Alike [] []
  | ending {c : Char} (hc : isBreak c = true) : Alike [] [c]
  | noEnding {c : Char} (hc : isBreak c = true) : Alike [c] []
  | keep (c : Char) {l l' : List Char} (h : Alike l l') : Alike (c :: l) (c :: l')
  | path {p q l l' : List Char} (hp : p.head? = some '/') (hq : q.head? = some '/')
      (h : Alike l l') : Alike (p ++ l) (q ++ l')

theorem Alike.refl : ∀ l, Alike l l
  | [] => .nil
  | c :: l => .keep c (.refl l)

theorem Alike.symm (h : Alike l l') : Alike l' l := by
  induction h with
  | nil => exact .nil
  | ending hc => exact .noEnding hc
  | noEnding hc => exact .ending hc
  | keep c _ ih => exact .keep c ih
  | path hp hq _ ih => exact .path hq hp ih

theorem exists_cons_of_head? (h : l.head? = some c) : ∃ t, l = c :: t := by
  cases l with
  | nil => cases h
  | cons d t =>
    cases h
    exact ⟨t, rfl⟩

/-- Characters other than slashes go from the beginning of both. -/
theorem Alike.dropWhile {p : Char → Bool} (hp : p '/' = false) (h : Alike l l') :
    Alike (l.dropWhile p) (l'.dropWhile p) := by
  induction h with
  | nil => exact .nil
  | @ending c hc =>
    rcases hpc : p c with _ | _
    · simpa [hpc] using Alike.ending hc
    · simpa [hpc] using Alike.nil
  | @noEnding c hc =>
    rcases hpc : p c with _ | _
    · simpa [hpc] using Alike.noEnding hc
    · simpa [hpc] using Alike.nil
  | keep c h ih =>
    rcases hpc : p c with _ | _
    · simpa [hpc] using h.keep c
    · simpa [hpc] using ih
  | path hp' hq' h ih =>
    obtain ⟨u, rfl⟩ := exists_cons_of_head? hp'
    obtain ⟨v, rfl⟩ := exists_cons_of_head? hq'
    simpa [hp] using Alike.path hp' hq' h

/-- Both begin with the same character, unless one has ended. -/
theorem Alike.head? (h : Alike l l') (hl : ∀ c ∈ l.head?, isBreak c = false)
    (hl' : ∀ c ∈ l'.head?, isBreak c = false) : l.head? = l'.head? := by
  cases h with
  | nil => rfl
  | ending hc => exact absurd hc (by simp [hl' _ rfl])
  | noEnding hc => exact absurd hc (by simp [hl _ rfl])
  | keep c h => rfl
  | path hp hq h =>
    rw [head?_append, head?_append, hp, hq]
    rfl

theorem lstrip_head (l : List Char) : ∀ c ∈ (lstrip l).head?, isSpace c = false := fun c hc => by
  have h := head?_dropWhile_not isSpace l
  rw [show (l.dropWhile isSpace).head? = some c from hc] at h
  simpa using h

theorem Alike.lstrip_head? (h : Alike l l') : (lstrip l).head? = (lstrip l').head? := by
  refine (h.dropWhile (p := isSpace) (by decide)).head? (fun c hc => ?_) fun c hc => ?_
  all_goals
    rw [Bool.eq_false_iff]
    intro hb
    have := lstrip_head _ c hc
    rw [isSpace_of_isBreak hb] at this
    cases this

theorem Alike.indentation (h : Alike l l') : indentation l = indentation l' := by
  induction h with
  | nil => rfl
  | @ending c hc | @noEnding c hc =>
    have hne : c ≠ ' ' := by rintro rfl; exact absurd hc (by decide)
    simp [ConfigPaths.indentation, hne]
  | keep c h ih =>
    rw [ConfigPaths.indentation, ConfigPaths.indentation] at ih ⊢
    by_cases hc : c = ' '
    · simp [hc, ih]
    · simp [hc]
  | path hp hq h ih =>
    obtain ⟨u, rfl⟩ := exists_cons_of_head? hp
    obtain ⟨v, rfl⟩ := exists_cons_of_head? hq
    rfl

theorem strip_isEmpty (l : List Char) : (strip l).isEmpty = (lstrip l).head?.isNone := by
  rw [strip]
  rcases hl : lstrip l with _ | ⟨c, t⟩
  · rfl
  · have hc : isSpace c = false := lstrip_head l c (by rw [hl]; rfl)
    have hne : rstrip (c :: t) ≠ [] := fun hnil => by
      have := (rdropWhile_eq_nil_iff (p := isSpace)).1 hnil c mem_cons_self
      rw [hc] at this
      cases this
    simpa using hne

theorem Alike.ignored (h : Alike l l') : ignored l = ignored l' := by
  rw [ConfigPaths.ignored, ConfigPaths.ignored, strip_isEmpty, strip_isEmpty, h.lstrip_head?]

/-! ## The line of a key -/

/-- The text is a key, a colon, and nothing but a comment after it. -/
def Keyed (key s : List Char) : Prop :=
  ∃ blank t, s = key ++ blank ++ ':' :: t ∧ (∀ c ∈ blank, isSpace c = true) ∧
    (lstrip t).head?.all (· = '#')

theorem Alike.of_cons {s : List Char} (h : Alike (c :: s) l') (hc : c ≠ '/')
    (hb : isBreak c = false ∨ s ≠ []) : ∃ t, l' = c :: t ∧ Alike s t := by
  generalize hl : c :: s = l at h
  cases h with
  | nil => cases hl
  | ending => cases hl
  | noEnding hd =>
    obtain ⟨rfl, rfl⟩ := List.cons.inj hl
    rcases hb with hb | hb
    · rw [hb] at hd
      cases hd
    · exact absurd rfl hb
  | keep d h =>
    obtain ⟨rfl, rfl⟩ := List.cons.inj hl
    exact ⟨_, rfl, h⟩
  | path hp hq h =>
    obtain ⟨u, rfl⟩ := exists_cons_of_head? hp
    exact absurd (List.cons.inj hl).1 hc

theorem Alike.of_append {u s : List Char} (h : Alike (u ++ c :: s) l') (hu : '/' ∉ u) (hc : c ≠ '/')
    (hb : isBreak c = false) : ∃ t, l' = u ++ c :: t ∧ Alike s t := by
  induction u generalizing l' with
  | nil => exact h.of_cons hc (.inl hb)
  | cons d u ih =>
    obtain ⟨hd, hu⟩ := not_or.1 (mt mem_cons.2 hu)
    obtain ⟨t₁, rfl, h₁⟩ := Alike.of_cons (s := u ++ c :: s) h (Ne.symm hd) (.inr (by simp))
    obtain ⟨t, rfl, ht⟩ := ih h₁ hu
    exact ⟨t, rfl, ht⟩

theorem Keyed.of_alike (h : Keyed key l) (hkey : '/' ∉ key) (ha : Alike l l') : Keyed key l' := by
  obtain ⟨blank, t, rfl, hblank, ht⟩ := h
  have hno : '/' ∉ key ++ blank := fun hmem => (mem_append.1 hmem).elim hkey fun hmem => by
    have := hblank _ hmem
    exact absurd this (by decide)
  obtain ⟨t', rfl, ha'⟩ := ha.of_append hno (by decide) (by decide)
  exact ⟨blank, t', rfl, hblank, by rwa [← ha'.lstrip_head?]⟩

theorem Alike.keyed_iff (h : Alike l l') (hkey : '/' ∉ key) : Keyed key l ↔ Keyed key l' :=
  ⟨fun hk => hk.of_alike hkey h, fun hk => hk.of_alike hkey h.symm⟩

theorem afterStart_eq_some {start t : List Char} : afterStart start s = some t ↔ s = start ++ t := by
  rw [afterStart]
  constructor
  · intro h
    split_ifs at h with hpre
    obtain ⟨u, rfl⟩ := isPrefixOf_iff_prefix.1 hpre
    rw [drop_left] at h
    rw [Option.some.inj h]
  · rintro rfl
    rw [if_pos (List.isPrefixOf_iff_prefix.2 (prefix_append _ _)), drop_left]

theorem lstrip_append {blank t : List Char} (hblank : ∀ c ∈ blank, isSpace c = true) :
    lstrip (blank ++ t) = lstrip t := by
  rw [lstrip, dropWhile_append, dropWhile_eq_nil_iff.2 hblank]
  rfl

theorem exists_lstrip (s : List Char) :
    ∃ blank, s = blank ++ lstrip s ∧ ∀ c ∈ blank, isSpace c = true :=
  ⟨s.takeWhile isSpace, (takeWhile_append_dropWhile).symm, fun _ hc => mem_takeWhile_imp hc⟩

/-- A text that begins with a key and, after white space, a colon. -/
theorem afterKey_eq_some {t : List Char} :
    ((afterStart key s).bind fun rest => afterStart [':'] (lstrip rest)) = some t ↔
      ∃ blank, s = key ++ blank ++ ':' :: t ∧ ∀ c ∈ blank, isSpace c = true := by
  rw [Option.bind_eq_some_iff]
  constructor
  · rintro ⟨rest, hrest, ht⟩
    rw [afterStart_eq_some] at hrest ht
    obtain ⟨blank, hblank, hspace⟩ := exists_lstrip rest
    refine ⟨blank, ?_, hspace⟩
    rw [hrest, append_assoc]
    exact congrArg (key ++ ·) (hblank.trans (congrArg (blank ++ ·) ht))
  · rintro ⟨blank, rfl, hspace⟩
    refine ⟨blank ++ ':' :: t, afterStart_eq_some.2 (append_assoc _ _ _), ?_⟩
    rw [afterStart_eq_some, lstrip_append hspace]
    rfl

/-- A newline, if there is one, is at the end. -/
def NewlineAtEnd (s : List Char) : Prop := ∀ a b, s = a ++ '\n' :: b → b = []

theorem NewlineAtEnd.of_append {a : List Char} (h : NewlineAtEnd (a ++ s)) : NewlineAtEnd s :=
  fun u v heq => h (a ++ u) v (by rw [heq, append_assoc])

theorem NewlineAtEnd.withoutNewline (h : NewlineAtEnd s) : '\n' ∉ withoutNewline s := by
  intro hmem
  rw [ConfigPaths.withoutNewline] at hmem
  split_ifs at hmem with hlast hret
  · have hmem := mem_of_mem_dropLast hmem
    obtain ⟨a, b, hab⟩ := append_of_mem hmem
    have hs := dropLast_append_getLast? _ hlast
    have := h a (b ++ ['\n']) (by rw [← hs, hab]; simp)
    simp at this
  · obtain ⟨a, b, hab⟩ := append_of_mem hmem
    have hs := dropLast_append_getLast? _ hlast
    have := h a (b ++ ['\n']) (by rw [← hs, hab]; simp)
    simp at this
  · obtain ⟨a, b, rfl⟩ := append_of_mem hmem
    obtain rfl := h a b rfl
    simp at hlast

/-! ## What is read of a line -/

/-- A line with at most one character that ends it. -/
def Single (l : List Char) : Prop :=
  ∃ s e, l = s ++ e ∧ (∀ c ∈ s, isBreak c = false) ∧ (e = [] ∨ ∃ c, e = [c] ∧ isBreak c = true)

theorem Single.newlineAtEnd (h : Single l) : NewlineAtEnd l := by
  obtain ⟨s, e, rfl, hs, he⟩ := h
  intro a b heq
  have hno : '\n' ∉ s := fun hmem => absurd (hs _ hmem) (by decide)
  rcases he with rfl | ⟨c, rfl, -⟩
  · rw [append_nil] at heq
    exact absurd (heq ▸ mem_append_right a mem_cons_self) hno
  · rcases eq_nil_or_concat' b with rfl | ⟨b, d, rfl⟩
    · rfl
    · -- A newline before the last character would be in the text.
      rw [← cons_append, ← append_assoc] at heq
      obtain ⟨rfl, -⟩ := append_inj' heq rfl
      exact absurd (mem_append_right a mem_cons_self) hno

theorem alike_append (s : List Char) (hc : isBreak c = true) : Alike (s ++ [c]) s := by
  induction s with
  | nil => exact .noEnding hc
  | cons d s ih => exact .keep d ih

theorem Single.alike_chomp (h : Single l) : Alike l (chomp l) := by
  obtain ⟨s, e, rfl, hs, rfl | ⟨c, rfl, hc⟩⟩ := h
  · rw [append_nil, chomp_of_unbroken hs]
    exact .refl s
  · rw [chomp_append_of_isBreak hs hc]
    exact alike_append s hc

theorem single_of_unbroken (h : ∀ c ∈ l, isBreak c = false) : Single l :=
  ⟨l, [], (append_nil l).symm, h, .inl rfl⟩

theorem exists_withoutNewline (hc : isSpace c = false) (s : List Char) :
    ∃ t, withoutNewline (c :: s) = c :: t := by
  have hn : c ≠ '\n' := by rintro rfl; exact absurd hc (by decide)
  have hr : c ≠ '\r' := by rintro rfl; exact absurd hc (by decide)
  rw [withoutNewline]
  rcases eq_nil_or_concat' s with rfl | ⟨s, d, rfl⟩
  · exact ⟨[], if_neg (by simpa using hn)⟩
  · rw [← cons_append, dropLast_concat]
    split_ifs with hlast hret
    · rcases eq_nil_or_concat' s with rfl | ⟨s, e, rfl⟩
      · exact absurd (by simpa using hret) hr
      · exact ⟨s, by rw [← cons_append, dropLast_concat]⟩
    · exact ⟨s, rfl⟩
    · exact ⟨s ++ [d], rfl⟩

/-- After the colon there is nothing but a comment. -/
theorem scalar_isEmpty (t : List Char) :
    (strip ((withoutNewline (lstrip t)).takeWhile (· ≠ '#'))).isEmpty =
      (lstrip t).head?.all (· = '#') := by
  rcases ht : lstrip t with _ | ⟨c, s⟩
  · rfl
  · have hc : isSpace c = false := lstrip_head t c (by rw [ht]; rfl)
    obtain ⟨u, hu⟩ := exists_withoutNewline hc s
    rw [hu, strip_isEmpty]
    by_cases hhash : c = '#'
    · simp [hhash, lstrip]
    · simp [hhash, lstrip, hc]

/-- A text that is a key and what comes after its colon. -/
theorem keyed_iff_of_afterKey {t : List Char}
    (h : ((afterStart key s).bind fun rest => afterStart [':'] (lstrip rest)) = some t) :
    Keyed key s ↔ (lstrip t).head?.all (· = '#') = true := by
  constructor
  · rintro ⟨blank, t', heq, hblank, ht'⟩
    rw [afterKey_eq_some.2 ⟨blank, heq, hblank⟩] at h
    rwa [← Option.some.inj h]
  · intro ht
    obtain ⟨blank, heq, hblank⟩ := afterKey_eq_some.1 h
    exact ⟨blank, t, heq, hblank, ht⟩

theorem not_keyed_of_afterKey
    (h : ((afterStart key s).bind fun rest => afterStart [':'] (lstrip rest)) = none) :
    ¬ Keyed key s := by
  rintro ⟨blank, t, heq, hblank, -⟩
  rw [afterKey_eq_some.2 ⟨blank, heq, hblank⟩] at h
  cases h

theorem NewlineAtEnd.lstrip (h : NewlineAtEnd s) : NewlineAtEnd (lstrip s) := by
  obtain ⟨blank, heq, -⟩ := exists_lstrip s
  exact NewlineAtEnd.of_append (heq ▸ h)

theorem blockHeader_iff (h : NewlineAtEnd l) {n : ℕ} : blockHeader l key = some n ↔
    ignored l = false ∧ Keyed key (l.dropWhile (· = ' ')) ∧ indentation l = n := by
  rw [blockHeader, yamlKeyLine]
  rcases hign : ConfigPaths.ignored l with _ | _
  swap
  · simp
  rw [if_neg Bool.false_ne_true, ← Option.bind_assoc]
  have hdrop : NewlineAtEnd (l.dropWhile (· = ' ')) := by
    refine NewlineAtEnd.of_append (a := l.takeWhile (· = ' ')) ?_
    rwa [takeWhile_append_dropWhile]
  rcases hkey : ((afterStart key (l.dropWhile (· = ' '))).bind fun rest =>
    afterStart [':'] (lstrip rest)) with _ | t
  · have hno := not_keyed_of_afterKey hkey
    simp [hno]
  · have ht : NewlineAtEnd t := by
      obtain ⟨blank, heq, -⟩ := afterKey_eq_some.1 hkey
      rw [heq, append_cons] at hdrop
      exact hdrop.of_append
    rw [Option.bind_some, keyed_iff_of_afterKey hkey, ← scalar_isEmpty]
    dsimp only
    rw [if_neg ht.lstrip.withoutNewline, Option.bind_some]
    simp

theorem exists_meshchat_body (h : Single l) :
    Alike (l.rdropWhile fun c => c = '\r' || c = '\n') l ∧
      '\n' ∉ l.rdropWhile fun c => c = '\r' || c = '\n' := by
  obtain ⟨s, e, rfl, hs, he⟩ := h
  have hno : '\n' ∉ s := fun hmem => absurd (hs _ hmem) (by decide)
  have hself : s.rdropWhile (fun c => c = '\r' || c = '\n') = s := by
    rcases eq_nil_or_concat' s with rfl | ⟨s, d, rfl⟩
    · rfl
    · refine rdropWhile_concat_neg _ _ _ fun hd => ?_
      have hb := hs d (mem_append_right _ (mem_singleton_self d))
      rcases (by simpa using hd : d = '\r' ∨ d = '\n') with rfl | rfl
      · cases hb
      · cases hb
  rcases he with rfl | ⟨c, rfl, hc⟩
  · rw [append_nil, hself]
    exact ⟨.refl s, hno⟩
  · rw [rdropWhile_concat]
    split_ifs with hend
    · rw [hself]
      exact ⟨(alike_append s hc).symm, hno⟩
    · refine ⟨.refl _, fun hmem => hend ?_⟩
      rcases mem_append.1 hmem with hmem | hmem
      · exact absurd hmem hno
      · rw [← mem_singleton.1 hmem]
        rfl

theorem startsMeshchat_iff (h : Single l) :
    startsMeshchat l = true ↔ Keyed "meshchat_server".toList (lstrip l) := by
  obtain ⟨halike, hno⟩ := exists_meshchat_body h
  rw [startsMeshchat]
  generalize l.rdropWhile (fun c => c = '\r' || c = '\n') = body at halike hno
  have hlstrip : Alike (lstrip body) (lstrip l) := halike.dropWhile (by decide)
  rw [← hlstrip.keyed_iff (by decide)]
  rcases hkey : ((afterStart "meshchat_server".toList (lstrip body)).bind fun rest =>
    afterStart [':'] (lstrip rest)) with _ | t
  · exact ⟨fun h => (nomatch h), fun h => absurd h (not_keyed_of_afterKey hkey)⟩
  · have hnl : '\n' ∉ lstrip t := fun hmem => by
      obtain ⟨blank, heq, -⟩ := afterKey_eq_some.1 hkey
      refine hno ((dropWhile_sublist isSpace).subset ?_)
      rw [show body.dropWhile isSpace = _ from heq]
      exact mem_append_right _ (mem_cons_of_mem _ ((dropWhile_sublist _).subset hmem))
    rw [keyed_iff_of_afterKey hkey, Option.any_some]
    rcases ht : lstrip t with _ | ⟨c, u⟩
    · rfl
    · rw [ht] at hnl
      simp [hnl]

/-- What is read of lines that are alike is the same. -/
theorem read_of_alike (h : Alike l l') (hl : Single l) (hl' : Single l') :
    ConfigLine.read l = ConfigLine.read l' := by
  have hplugins : blockHeader l "plugins".toList = blockHeader l' "plugins".toList := by
    ext n
    rw [blockHeader_iff hl.newlineAtEnd, blockHeader_iff hl'.newlineAtEnd, h.ignored, h.indentation,
      (h.dropWhile (p := fun c => decide (c = ' ')) (by decide)).keyed_iff (by decide)]
  have hmeshchat : startsMeshchat l = startsMeshchat l' := by
    rw [Bool.eq_iff_iff, startsMeshchat_iff hl, startsMeshchat_iff hl']
    exact (h.dropWhile (p := isSpace) (by decide)).keyed_iff (by decide)
  rw [ConfigLine.read, ConfigLine.read, h.ignored, h.indentation, hplugins, hmeshchat]

end ReticulumPi.Admin.ConfigPaths
