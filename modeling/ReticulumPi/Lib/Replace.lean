import Mathlib.Data.List.Infix

/-!
# Replacing a literal

The places of a literal `w` in a text: its leftmost occurrences that do not
overlap, each followed by what the lookahead `ok` allows (`places`, each with
the letter before it), and the text with something else at those places
(`replace`). A text is gone through letter by letter and place by place
(`scan_induction`); with no occurrence there is no place (`places_eq_nil_iff`).
-/

namespace Literal

open List

variable {α : Type*} [DecidableEq α]

/-- The literal stands at the beginning of the text, before what `ok` allows. -/
def occursAt (w : List α) (ok : List α → Bool) (s : List α) : Bool :=
  w.isPrefixOf s && ok (s.drop w.length)

/-- The text after `skip` letters that belong to a place, with `r` of the letter
    before it at each further place. -/
def replaceFrom (w : List α) (ok : List α → Bool) (r : Option α → List α) :
    ℕ → Option α → List α → List α
  | _, _, [] => []
  | skip + 1, _, c :: s => replaceFrom w ok r skip (some c) s
  | 0, prev, c :: s =>
    if occursAt w ok (c :: s) then r prev ++ replaceFrom w ok r (w.length - 1) (some c) s
    else c :: replaceFrom w ok r 0 (some c) s

/-- The letters before the places, after `skip` letters that belong to one. -/
def placesFrom (w : List α) (ok : List α → Bool) : ℕ → Option α → List α → List (Option α)
  | _, _, [] => []
  | skip + 1, _, c :: s => placesFrom w ok skip (some c) s
  | 0, prev, c :: s =>
    if occursAt w ok (c :: s) then prev :: placesFrom w ok (w.length - 1) (some c) s
    else placesFrom w ok 0 (some c) s

attribute [local simp] replaceFrom placesFrom

/-- The text with `r` of the letter before it at each place. -/
def replace (w : List α) (ok : List α → Bool) (r : Option α → List α) (s : List α) : List α :=
  replaceFrom w ok r 0 none s

/-- The letters before the places. -/
def places (w : List α) (ok : List α → Bool) (s : List α) : List (Option α) :=
  placesFrom w ok 0 none s

variable {w s u u' : List α} {ok : List α → Bool} {r r' : Option α → List α} {prev : Option α} {c : α}

theorem occursAt_iff : occursAt w ok s = true ↔ ∃ t, s = w ++ t ∧ ok t = true := by
  rw [occursAt, Bool.and_eq_true, isPrefixOf_iff_prefix]
  constructor
  · rintro ⟨⟨t, rfl⟩, hok⟩
    exact ⟨t, rfl, by rwa [drop_left] at hok⟩
  · rintro ⟨t, rfl, hok⟩
    exact ⟨prefix_append w t, by rwa [drop_left]⟩

/-! ## Going through a text -/

omit [DecidableEq α] in
theorem getLast?_cons_or (c : α) (u : List α) : (c :: u).getLast? = u.getLast?.or (some c) := by
  rcases eq_nil_or_concat' u with rfl | ⟨u, d, rfl⟩
  · rfl
  · rw [← cons_append, getLast?_append, getLast?_append]
    rfl

theorem replaceFrom_append (u s : List α) (prev : Option α) :
    replaceFrom w ok r u.length prev (u ++ s) = replaceFrom w ok r 0 (u.getLast?.or prev) s := by
  induction u generalizing prev with
  | nil => rfl
  | cons c u ih =>
    rw [length_cons, cons_append, replaceFrom, ih, getLast?_cons_or, Option.or_assoc]
    rfl

theorem placesFrom_append (u s : List α) (prev : Option α) :
    placesFrom w ok u.length prev (u ++ s) = placesFrom w ok 0 (u.getLast?.or prev) s := by
  induction u generalizing prev with
  | nil => rfl
  | cons c u ih =>
    rw [length_cons, cons_append, placesFrom, ih, getLast?_cons_or, Option.or_assoc]
    rfl

theorem replaceFrom_keep (h : occursAt w ok (c :: s) = false) :
    replaceFrom w ok r 0 prev (c :: s) = c :: replaceFrom w ok r 0 (some c) s := by
  rw [replaceFrom, h]
  rfl

theorem placesFrom_keep (h : occursAt w ok (c :: s) = false) :
    placesFrom w ok 0 prev (c :: s) = placesFrom w ok 0 (some c) s := by
  rw [placesFrom, h]
  rfl

theorem replaceFrom_place (hw : w ≠ []) (h : ok s = true) :
    replaceFrom w ok r 0 prev (w ++ s) = r prev ++ replaceFrom w ok r 0 w.getLast? s := by
  obtain ⟨c, u, rfl⟩ := exists_cons_of_ne_nil hw
  have hocc : occursAt (c :: u) ok (c :: (u ++ s)) = true := occursAt_iff.2 ⟨s, rfl, h⟩
  rw [cons_append, replaceFrom, if_pos hocc, length_cons, Nat.add_sub_cancel,
    replaceFrom_append, getLast?_cons_or]

theorem placesFrom_place (hw : w ≠ []) (h : ok s = true) :
    placesFrom w ok 0 prev (w ++ s) = prev :: placesFrom w ok 0 w.getLast? s := by
  obtain ⟨c, u, rfl⟩ := exists_cons_of_ne_nil hw
  have hocc : occursAt (c :: u) ok (c :: (u ++ s)) = true := occursAt_iff.2 ⟨s, rfl, h⟩
  rw [cons_append, placesFrom, if_pos hocc, length_cons, Nat.add_sub_cancel,
    placesFrom_append, getLast?_cons_or]

/-- A text ends, or goes on with a letter at which the literal does not occur,
    or with the literal. -/
theorem scan_induction (ok : List α → Bool) (hw : w ≠ []) {P : Option α → List α → Prop}
    (nil : ∀ prev, P prev [])
    (keep : ∀ prev c s, occursAt w ok (c :: s) = false → P (some c) s → P prev (c :: s))
    (place : ∀ prev s, ok s = true → P w.getLast? s → P prev (w ++ s)) (prev : Option α)
    (s : List α) : P prev s := by
  induction hn : s.length using Nat.strong_induction_on generalizing prev s with
  | _ n ih =>
    rcases s with _ | ⟨c, s⟩
    · exact nil prev
    rcases hocc : occursAt w ok (c :: s) with _ | _
    · exact keep prev c s hocc (ih s.length (by simp [← hn]) _ _ rfl)
    · obtain ⟨t, heq, hok⟩ := occursAt_iff.1 hocc
      rw [heq]
      refine place prev t hok (ih t.length ?_ _ _ rfl)
      have hlen := congrArg List.length heq
      have hpos := length_pos_iff.2 hw
      rw [length_append] at hlen
      omega

/-! ## Places -/

theorem placesFrom_eq_nil_iff (hw : w ≠ []) :
    placesFrom w ok 0 prev s = [] ↔ ∀ t, t <:+ s → occursAt w ok t = false := by
  refine scan_induction ok hw (P := fun prev s =>
    placesFrom w ok 0 prev s = [] ↔ ∀ t, t <:+ s → occursAt w ok t = false)
    (fun prev => ?_) (fun prev c s hno ih => ?_) (fun prev s hok _ => ?_) prev s
  · refine ⟨fun _ t ht => ?_, fun _ => rfl⟩
    rw [suffix_nil.1 ht, Bool.eq_false_iff]
    intro hocc
    obtain ⟨u, heq, -⟩ := occursAt_iff.1 hocc
    exact hw (append_eq_nil_iff.1 heq.symm).1
  · rw [placesFrom_keep hno, ih]
    refine ⟨fun h t ht => ?_, fun h t ht => h t (ht.trans (suffix_cons c s))⟩
    rcases suffix_cons_iff.1 ht with rfl | ht
    · exact hno
    · exact h t ht
  · rw [placesFrom_place hw hok]
    refine ⟨fun h => absurd h (cons_ne_nil _ _), fun h => ?_⟩
    have := h (w ++ s) suffix_rfl
    rw [occursAt_iff.2 ⟨s, rfl, hok⟩] at this
    cases this

theorem places_eq_nil_iff (hw : w ≠ []) :
    places w ok s = [] ↔ ∀ t, t <:+ s → occursAt w ok t = false := placesFrom_eq_nil_iff hw

theorem mem_of_places (hw : w ≠ []) (h : places w ok s ≠ []) (hc : c ∈ w) : c ∈ s := by
  by_contra hno
  refine h ((places_eq_nil_iff hw).2 fun t ht => Bool.eq_false_iff.2 fun hocc => hno ?_)
  obtain ⟨u, rfl, -⟩ := occursAt_iff.1 hocc
  exact ht.mem (mem_append_left _ hc)

/-- A letter that the literal does not have, where the lookahead may also stop. -/
structure Ends (ok : List α → Bool) (w : List α) (c : α) : Prop where
  notMem : c ∉ w
  append : ∀ s, ok (s ++ [c]) = ok s

theorem Ends.occursAt (h : Ends ok w c) (s : List α) :
    occursAt w ok (s ++ [c]) = occursAt w ok s := by
  rw [Bool.eq_iff_iff, occursAt_iff, occursAt_iff]
  constructor
  · rintro ⟨t, heq, hok⟩
    rcases eq_nil_or_concat' t with rfl | ⟨t, d, rfl⟩
    · -- The literal would end with the letter.
      rw [append_nil] at heq
      exact absurd (heq ▸ mem_append_right _ (mem_singleton_self c)) h.notMem
    · rw [← append_assoc] at heq
      obtain ⟨rfl, hd⟩ := append_inj' heq rfl
      obtain rfl := singleton_inj.1 hd
      exact ⟨t, rfl, by rwa [h.append] at hok⟩
  · rintro ⟨t, rfl, hok⟩
    exact ⟨t ++ [c], append_assoc _ _ _, by rwa [h.append]⟩

theorem Ends.replaceFrom (h : Ends ok w c) (hw : w ≠ []) :
    replaceFrom w ok r 0 prev (s ++ [c]) = replaceFrom w ok r 0 prev s ++ [c] := by
  refine scan_induction ok hw (P := fun prev s =>
    Literal.replaceFrom w ok r 0 prev (s ++ [c]) = Literal.replaceFrom w ok r 0 prev s ++ [c])
    (fun prev => ?_) (fun prev d s hno ih => ?_) (fun prev s hok ih => ?_) prev s
  · have hno : Literal.occursAt w ok [c] = false := by
      rw [← nil_append [c], h.occursAt, Bool.eq_false_iff]
      intro hocc
      obtain ⟨t, heq, -⟩ := occursAt_iff.1 hocc
      exact hw (append_eq_nil_iff.1 heq.symm).1
    rw [nil_append, replaceFrom_keep hno]
    rfl
  · have hno' : Literal.occursAt w ok (d :: (s ++ [c])) = false := by
      rw [← cons_append, h.occursAt, hno]
    rw [cons_append, replaceFrom_keep hno', replaceFrom_keep hno, ih, cons_append]
  · rw [append_assoc, replaceFrom_place hw (by rwa [h.append]), replaceFrom_place hw hok, ih,
      append_assoc]

theorem Ends.placesFrom (h : Ends ok w c) (hw : w ≠ []) :
    placesFrom w ok 0 prev (s ++ [c]) = placesFrom w ok 0 prev s := by
  refine scan_induction ok hw (P := fun prev s =>
    Literal.placesFrom w ok 0 prev (s ++ [c]) = Literal.placesFrom w ok 0 prev s)
    (fun prev => ?_) (fun prev d s hno ih => ?_) (fun prev s hok ih => ?_) prev s
  · have hno : Literal.occursAt w ok [c] = false := by
      rw [← nil_append [c], h.occursAt, Bool.eq_false_iff]
      intro hocc
      obtain ⟨t, heq, -⟩ := occursAt_iff.1 hocc
      exact hw (append_eq_nil_iff.1 heq.symm).1
    rw [nil_append, placesFrom_keep hno]
    rfl
  · have hno' : Literal.occursAt w ok (d :: (s ++ [c])) = false := by
      rw [← cons_append, h.occursAt, hno]
    rw [cons_append, placesFrom_keep hno', placesFrom_keep hno, ih]
  · rw [append_assoc, placesFrom_place hw (by rwa [h.append]), placesFrom_place hw hok, ih]

theorem Ends.replace (h : Ends ok w c) (hw : w ≠ []) :
    replace w ok r (s ++ [c]) = replace w ok r s ++ [c] := h.replaceFrom hw

theorem Ends.places (h : Ends ok w c) (hw : w ≠ []) : places w ok (s ++ [c]) = places w ok s :=
  h.placesFrom hw

/-! ## What is replaced -/

theorem replaceFrom_congr (hw : w ≠ []) (h : ∀ p ∈ placesFrom w ok 0 prev s, r p = r' p) :
    replaceFrom w ok r 0 prev s = replaceFrom w ok r' 0 prev s := by
  refine scan_induction ok hw (P := fun prev s =>
    (∀ p ∈ placesFrom w ok 0 prev s, r p = r' p) →
      replaceFrom w ok r 0 prev s = replaceFrom w ok r' 0 prev s)
    (fun prev _ => rfl) (fun prev c s hno ih h => ?_) (fun prev s hok ih h => ?_) prev s h
  · rw [placesFrom_keep hno] at h
    rw [replaceFrom_keep hno, replaceFrom_keep hno, ih h]
  · rw [placesFrom_place hw hok] at h
    rw [replaceFrom_place hw hok, replaceFrom_place hw hok, h prev mem_cons_self,
      ih fun p hp => h p (mem_cons_of_mem _ hp)]

theorem replace_congr (hw : w ≠ []) (h : ∀ p ∈ places w ok s, r p = r' p) :
    replace w ok r s = replace w ok r' s := replaceFrom_congr hw h

/-- A letter comes from the text or from what is put in. -/
theorem mem_of_mem_replace (hw : w ≠ []) (hc : c ∈ replace w ok r s) :
    c ∈ s ∨ ∃ p, c ∈ r p := by
  refine scan_induction ok hw (P := fun prev s =>
    c ∈ replaceFrom w ok r 0 prev s → c ∈ s ∨ ∃ p, c ∈ r p)
    (fun prev hc => .inl hc) (fun prev d s hno ih hc => ?_) (fun prev s hok ih hc => ?_) none s hc
  · rw [replaceFrom_keep hno] at hc
    rcases mem_cons.1 hc with rfl | hc
    · exact .inl mem_cons_self
    · exact (ih hc).imp_left (mem_cons_of_mem _)
  · rw [replaceFrom_place hw hok] at hc
    rcases mem_append.1 hc with hc | hc
    · exact .inr ⟨prev, hc⟩
    · exact (ih hc).imp_left (mem_append_right _)

/-- Where a place is left as it is, the literal still occurs, provided that what
    is put in does not disturb the lookahead. -/
theorem exists_occursAt_replace (hw : w ≠ [])
    (hok : ∀ prev s, ok s = true → ok (replaceFrom w ok r 0 prev s) = true) {p : Option α}
    (hp : p ∈ places w ok s) (hr : r p = w) :
    ∃ t, t <:+ replace w ok r s ∧ occursAt w ok t = true := by
  refine scan_induction ok hw (P := fun prev s => p ∈ placesFrom w ok 0 prev s →
    ∃ t, t <:+ replaceFrom w ok r 0 prev s ∧ occursAt w ok t = true)
    (fun prev hp => nomatch hp) (fun prev c s hno ih hp => ?_) (fun prev s hs ih hp => ?_) none s hp
  · rw [placesFrom_keep hno] at hp
    rw [replaceFrom_keep hno]
    obtain ⟨t, ht, hocc⟩ := ih hp
    exact ⟨t, ht.trans (suffix_cons _ _), hocc⟩
  · rw [placesFrom_place hw hs] at hp
    rw [replaceFrom_place hw hs]
    rcases mem_cons.1 hp with rfl | hp
    · exact ⟨_, suffix_rfl, occursAt_iff.2 ⟨_, by rw [hr], hok _ _ hs⟩⟩
    · obtain ⟨t, ht, hocc⟩ := ih hp
      exact ⟨t, ht.trans (suffix_append _ _), hocc⟩

/-! ## One text at every place -/

/-- Letters that the literal does not have, where the lookahead may also stop, stay at
    the end. -/
theorem replace_append_of_ends {e : List α} (he : ∀ c ∈ e, Ends ok w c) (hw : w ≠ []) :
    replace w ok r (s ++ e) = replace w ok r s ++ e := by
  induction e using List.reverseRecOn with
  | nil => rw [append_nil, append_nil]
  | append_singleton e c ih =>
    have hc := he c (mem_append_right _ (mem_singleton_self c))
    rw [← append_assoc, hc.replace hw, ih fun d hd => he d (mem_append_left _ hd),
      append_assoc]

theorem places_append_of_ends {e : List α} (he : ∀ c ∈ e, Ends ok w c) (hw : w ≠ []) :
    places w ok (s ++ e) = places w ok s := by
  induction e using List.reverseRecOn with
  | nil => rw [append_nil]
  | append_singleton e c ih =>
    have hc := he c (mem_append_right _ (mem_singleton_self c))
    rw [← append_assoc, hc.places hw, ih fun d hd => he d (mem_append_left _ hd)]

theorem length_replace (hw : w ≠ []) (ok : List α → Bool) (u s : List α) :
    (replace w ok (fun _ => u) s).length + (places w ok s).length * w.length =
      s.length + (places w ok s).length * u.length := by
  refine scan_induction ok hw (P := fun prev s =>
    (replaceFrom w ok (fun _ => u) 0 prev s).length + (placesFrom w ok 0 prev s).length * w.length =
      s.length + (placesFrom w ok 0 prev s).length * u.length)
    (fun prev => by simp [replaceFrom, placesFrom]) (fun prev c s hno ih => ?_)
    (fun prev s hok ih => ?_) none s
  · rw [replaceFrom_keep hno, placesFrom_keep hno, length_cons, length_cons]
    omega
  · rw [replaceFrom_place hw hok, placesFrom_place hw hok, length_append, length_append,
      length_cons, Nat.succ_mul, Nat.succ_mul]
    omega

/-- What is put in at a place can be read off the text. -/
theorem eq_of_replace_eq (hw : w ≠ []) (hlen : u.length = u'.length) (hs : places w ok s ≠ [])
    (h : replace w ok (fun _ => u) s = replace w ok (fun _ => u') s) : u = u' := by
  refine scan_induction ok hw (P := fun prev s => placesFrom w ok 0 prev s ≠ [] →
    replaceFrom w ok (fun _ => u) 0 prev s = replaceFrom w ok (fun _ => u') 0 prev s → u = u')
    (fun prev hs => absurd rfl hs) (fun prev c s hno ih hs h => ?_) (fun prev s hok _ _ h => ?_)
    none s hs h
  · rw [replaceFrom_keep hno, replaceFrom_keep hno] at h
    rw [placesFrom_keep hno] at hs
    exact ih hs (List.cons.inj h).2
  · rw [replaceFrom_place hw hok, replaceFrom_place hw hok] at h
    exact (append_inj h hlen).1

theorem filter_replace {p : α → Bool} (hw : w ≠ []) (hs : ∀ c ∈ s, p c = true) :
    (replace w ok (fun _ => u) s).filter p = replace w ok (fun _ => u.filter p) s := by
  refine scan_induction ok hw (P := fun prev s => (∀ c ∈ s, p c = true) →
    (replaceFrom w ok (fun _ => u) 0 prev s).filter p =
      replaceFrom w ok (fun _ => u.filter p) 0 prev s)
    (fun prev _ => rfl) (fun prev c s hno ih hs => ?_) (fun prev s hok ih hs => ?_) none s hs
  · rw [replaceFrom_keep hno, replaceFrom_keep hno,
      filter_cons_of_pos (hs c mem_cons_self),
      ih fun d hd => hs d (mem_cons_of_mem _ hd)]
  · rw [replaceFrom_place hw hok, replaceFrom_place hw hok, filter_append,
      ih fun d hd => hs d (mem_append_right _ hd)]

theorem mem_replace_of_places (hw : w ≠ []) (hc : c ∈ u) (hs : places w ok s ≠ []) :
    c ∈ replace w ok (fun _ => u) s := by
  refine scan_induction ok hw (P := fun prev s => placesFrom w ok 0 prev s ≠ [] →
    c ∈ replaceFrom w ok (fun _ => u) 0 prev s)
    (fun prev hs => absurd rfl hs) (fun prev d s hno ih hs => ?_) (fun prev s hok _ _ => ?_)
    none s hs
  · rw [placesFrom_keep hno] at hs
    rw [replaceFrom_keep hno]
    exact mem_cons_of_mem _ (ih hs)
  · rw [replaceFrom_place hw hok]
    exact mem_append_left _ hc

theorem replace_ne_nil (hw : w ≠ []) (hr : ∀ p, r p ≠ []) (hs : s ≠ []) : replace w ok r s ≠ [] := by
  refine scan_induction ok hw (P := fun prev s => s ≠ [] → replaceFrom w ok r 0 prev s ≠ [])
    (fun prev hs => hs) (fun prev c s hno _ _ => ?_) (fun prev s hok _ _ h => ?_) none s hs
  · rw [replaceFrom_keep hno]
    exact cons_ne_nil _ _
  · rw [replaceFrom_place hw hok] at h
    exact hr prev (append_eq_nil_iff.1 h).1

end Literal
