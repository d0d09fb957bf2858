import Mathlib.Data.List.DropRight

/-!
# Maximal stretches of a list

A *stretch* of the elements of a list that meet a predicate goes on neither to
the left nor to the right. A scan of the list finds a stretch when it comes to
the element that ends it; `ended` lists those whose end is met by an element of
a second predicate, in order, each with that element, and `openEnd` is the one
that the list ends with.
-/

/-- A stretch of a list: what stands before it, and its elements. -/
structure Stretch (α : Type*) where
  before : List α
  items : List α

namespace Stretch

open List

variable {α : Type*} {p q : α → Bool} {l l' : List α} {r r' : Stretch α} {x : α}

/-- The elements of `r` meet `p`, and the one before them does not. -/
structure Begins (p : α → Bool) (r : Stretch α) : Prop where
  ne_nil : r.items ≠ []
  all : ∀ x ∈ r.items, p x = true
  left : ∀ x ∈ r.before.getLast?, p x = false

/-- The list up to the end of the stretch. -/
def upTo (r : Stretch α) : List α := r.before ++ r.items

/-! ## The stretch at the end -/

/-- The stretch that the list ends with. -/
def openEnd (p : α → Bool) (l : List α) : Option (Stretch α) :=
  if l.rtakeWhile p = [] then none else some ⟨l.rdropWhile p, l.rtakeWhile p⟩

theorem getLast?_rdropWhile (p : α → Bool) (l : List α) :
    ∀ x ∈ (l.rdropWhile p).getLast?, p x = false := by
  intro x hx
  obtain ⟨hne, rfl⟩ := mem_getLast?_eq_getLast hx
  simpa using rdropWhile_last_not p l hne

theorem rdropWhile_append_of_pos {items : List α} (hall : ∀ x ∈ items, p x = true)
    (hleft : ∀ x ∈ l.getLast?, p x = false) : (l ++ items).rdropWhile p = l := by
  induction items using List.reverseRecOn with
  | nil =>
    rw [append_nil, rdropWhile_eq_self_iff]
    intro hne
    simp [hleft _ (getLast?_eq_some_getLast hne)]
  | append_singleton items x ih =>
    rw [← append_assoc, rdropWhile_concat_pos _ _ _ (hall x (by simp))]
    exact ih fun y hy => hall y (mem_append_left _ hy)

theorem openEnd_eq_some_iff : openEnd p l = some r ↔ l = r.upTo ∧ r.Begins p := by
  rw [openEnd]
  constructor
  · intro h
    split_ifs at h with hnil
    cases h
    exact ⟨rdropWhile_append_rtakeWhile.symm,
      hnil, fun x hx => mem_rtakeWhile_imp hx, getLast?_rdropWhile p l⟩
  · obtain ⟨before, items⟩ := r
    rintro ⟨rfl, hr⟩
    have hdrop : (before ++ items).rdropWhile p = before :=
      rdropWhile_append_of_pos hr.all hr.left
    have htake : (before ++ items).rtakeWhile p = items := by
      have happend := rdropWhile_append_rtakeWhile (p := p) (l := before ++ items)
      rw [hdrop] at happend
      exact append_cancel_left happend
    rw [upTo, htake, hdrop, if_neg hr.ne_nil]

theorem openEnd_eq_none_iff : openEnd p l = none ↔ ∀ x ∈ l.getLast?, p x = false := by
  rw [openEnd, ite_eq_left_iff]
  simp only [reduceCtorEq, imp_false, not_not]
  rw [rtakeWhile_eq_nil_iff]
  constructor
  · intro h x hx
    obtain ⟨hne, rfl⟩ := mem_getLast?_eq_getLast hx
    simpa using h hne
  · intro h hne
    simpa using h _ (getLast?_eq_some_getLast hne)

theorem openEnd_nil : openEnd p ([] : List α) = none := by
  rw [openEnd, rtakeWhile_nil, if_pos rfl]

theorem openEnd_concat_neg (h : p x = false) : openEnd p (l ++ [x]) = none := by
  rw [openEnd, rtakeWhile_concat_neg _ _ _ (by simp [h]), if_pos rfl]

/-- Another element that meets `p` makes the stretch longer. -/
theorem openEnd_concat_pos (h : p x = true) (hr : openEnd p l = some r) :
    openEnd p (l ++ [x]) = some ⟨r.before, r.items ++ [x]⟩ := by
  obtain ⟨rfl, hb⟩ := openEnd_eq_some_iff.1 hr
  refine openEnd_eq_some_iff.2 ⟨append_assoc _ _ _, by simp, fun y hy => ?_, hb.left⟩
  rcases mem_append.1 hy with hy | hy
  · exact hb.all y hy
  · rwa [mem_singleton.1 hy]

/-- Where no stretch is open, the element begins one. -/
theorem openEnd_concat_new (h : p x = true) (hl : openEnd p l = none) :
    openEnd p (l ++ [x]) = some ⟨l, [x]⟩ := by
  refine openEnd_eq_some_iff.2 ⟨rfl, by simp, fun y hy => ?_, openEnd_eq_none_iff.1 hl⟩
  rwa [mem_singleton.1 hy]

/-! ## The stretches that are ended -/

/-- The stretches that an element of `l` ends, when `before` stands before `l`. -/
def endedAfter (p q : α → Bool) (before : List α) : List α → List (Stretch α × α)
  | [] => []
  | x :: l =>
    (if q x then ((openEnd p before).map fun r => (r, x)).toList else []) ++
      endedAfter p q (before ++ [x]) l

/-- The stretches of elements that meet `p` which an element that meets `q` ends. -/
def ended (p q : α → Bool) (l : List α) : List (Stretch α × α) := endedAfter p q [] l

theorem mem_endedAfter {before : List α} {e : Stretch α × α} :
    e ∈ endedAfter p q before l ↔
      ∃ l₁ l₂, l = l₁ ++ e.2 :: l₂ ∧ q e.2 = true ∧ openEnd p (before ++ l₁) = some e.1 := by
  induction l generalizing before with
  | nil => simp [endedAfter]
  | cons x l ih =>
    rw [endedAfter, mem_append, ih]
    constructor
    · rintro (h | ⟨l₁, l₂, rfl, hq, ho⟩)
      · split_ifs at h with hq
        · rw [Option.mem_toList, Option.map_eq_some_iff] at h
          obtain ⟨r, hr, rfl⟩ := h
          exact ⟨[], l, rfl, hq, by rwa [append_nil]⟩
        · cases h
      · exact ⟨x :: l₁, l₂, rfl, hq, by rwa [append_cons]⟩
    · rintro ⟨_ | ⟨y, l₁⟩, l₂, hl, hq, ho⟩
      · rw [nil_append, List.cons.injEq] at hl
        obtain ⟨rfl, rfl⟩ := hl
        rw [append_nil] at ho
        rw [if_pos hq, ho]
        exact .inl mem_cons_self
      · rw [cons_append, List.cons.injEq] at hl
        obtain ⟨rfl, rfl⟩ := hl
        exact .inr ⟨l₁, l₂, rfl, hq, by rwa [append_cons] at ho⟩

/-- `e` is a stretch of `l` with the element that ends it. -/
structure EndedIn (p q : α → Bool) (l : List α) (e : Stretch α × α) : Prop where
  begins : e.1.Begins p
  ends : q e.2 = true
  isPrefix : e.1.upTo ++ [e.2] <+: l

theorem mem_ended {e : Stretch α × α} : e ∈ ended p q l ↔ EndedIn p q l e := by
  rw [ended, mem_endedAfter]
  constructor
  · rintro ⟨l₁, l₂, rfl, hq, ho⟩
    obtain ⟨rfl, hb⟩ := openEnd_eq_some_iff.1 ho
    exact ⟨hb, hq, l₂, by simp⟩
  · rintro ⟨hb, hq, l₂, rfl⟩
    exact ⟨e.1.upTo, l₂, by simp, hq, openEnd_eq_some_iff.2 ⟨rfl, hb⟩⟩

theorem endedAfter_concat {before : List α} :
    endedAfter p q before (l ++ [x]) = endedAfter p q before l ++
      if q x then ((openEnd p (before ++ l)).map fun r => (r, x)).toList else [] := by
  induction l generalizing before with
  | nil => simp [endedAfter]
  | cons y l ih => rw [cons_append, endedAfter, endedAfter, ih]; simp

theorem ended_concat :
    ended p q (l ++ [x]) =
      ended p q l ++ if q x then ((openEnd p l).map fun r => (r, x)).toList else [] :=
  endedAfter_concat

theorem ended_prefix : ended p q l <+: ended p q (l ++ l') := by
  induction l' using List.reverseRecOn with
  | nil => simp
  | append_singleton l' x ih =>
    rw [← append_assoc, ended_concat]
    exact ih.trans (prefix_append _ _)

theorem prefix_of_not_mem {m before items : List α} (h : m ++ [x] <+: before ++ items)
    (hx : x ∉ items) : m ++ [x] <+: before := by
  rcases prefix_or_prefix_of_prefix h (prefix_append before items) with hpre | ⟨t, ht⟩
  · exact hpre
  · rcases eq_nil_or_concat t with rfl | ⟨t', y, rfl⟩
    · obtain rfl : before = m ++ [x] := (append_nil _).symm.trans ht
      exact prefix_rfl
    · -- Then the last element would be one of `items`.
      rw [concat_eq_append] at ht
      rw [← ht, prefix_append_right_inj] at h
      rw [← append_assoc] at ht
      have hy : y = x := append_inj_right' ht rfl |> List.cons.inj |>.1
      exact absurd (h.subset (mem_append_right _ (by simp [hy]))) hx

/-- A stretch begins after the end of another one. -/
def After (e e' : Stretch α × α) : Prop := e.1.upTo ++ [e.2] <+: e'.1.before

/-- The stretches are found in order, when what ends them does not meet `p`. -/
theorem pairwise_ended (hpq : ∀ x, q x = true → p x = false) : (ended p q l).Pairwise After := by
  induction l using List.reverseRecOn with
  | nil => exact Pairwise.nil
  | append_singleton l x ih =>
    rw [ended_concat, pairwise_append]
    refine ⟨ih, ?_, fun e he e' he' => ?_⟩
    · split_ifs
      · cases openEnd p l <;> simp
      · exact Pairwise.nil
    · split_ifs at he' with hq
      · rw [Option.mem_toList, Option.map_eq_some_iff] at he'
        obtain ⟨r, hr, rfl⟩ := he'
        obtain ⟨rfl, hb⟩ := openEnd_eq_some_iff.1 hr
        have he := mem_ended.1 he
        exact prefix_of_not_mem he.isPrefix fun hmem =>
          absurd (hb.all _ hmem) (by simp [hpq _ he.ends])
      · cases he'

/-! ## Maximal stretches -/

/-- A stretch that goes on neither to the left nor to the right. -/
structure MaximalIn (p : α → Bool) (l : List α) (r : Stretch α) : Prop where
  begins : r.Begins p
  right : ∃ after, l = r.upTo ++ after ∧ ∀ x ∈ after.head?, p x = false

/-- When every element meets one of the two predicates, a maximal stretch is
    ended or open. -/
theorem maximalIn_iff (h : ∀ x ∈ l, q x = !p x) :
    MaximalIn p l r ↔ (∃ x, EndedIn p q l (r, x)) ∨ openEnd p l = some r := by
  constructor
  · rintro ⟨hb, _ | ⟨x, after⟩, rfl, hright⟩
    · exact .inr (openEnd_eq_some_iff.2 ⟨append_nil _, hb⟩)
    · refine .inl ⟨x, hb, ?_, after, by simp⟩
      rw [h x (by simp), hright x rfl]
      rfl
  · rintro (⟨x, hb, hq, after, rfl⟩ | ho)
    · refine ⟨hb, x :: after, by simp, fun y hy => ?_⟩
      cases hy
      have hx := h x (by simp)
      rw [hq] at hx
      simpa using hx
    · obtain ⟨rfl, hb⟩ := openEnd_eq_some_iff.1 ho
      exact ⟨hb, [], (append_nil _).symm, fun y hy => by cases hy⟩

end Stretch
