import ReticulumPi.Admin.ConfigPaths

/-!
# Replacement templates

A data directory is put in as a replacement template of `re`, in which a backslash
begins an escape. What a template stands for may differ from it by the characters
that end lines only if it stands for itself (`expandTemplate_eq_self`).
-/

namespace ReticulumPi.Admin.ConfigPaths

open PyStr List

theorem head_octal {s : List Char} {d : ℕ} (h : s.head?.bind octal = some d) :
    ∃ c t, s = c :: t ∧ c ≠ '/' := by
  rcases s with _ | ⟨c, t⟩
  · cases h
  · refine ⟨c, t, rfl, ?_⟩
    rintro rfl
    have hnone : octal '/' = none := by decide
    rw [head?_cons, Option.bind_some, hnone] at h
    cases h

theorem slash_ne : '/' ≠ Char.ofNat 0x5c := by decide

theorem escape_cases {c : Char} {text : List Char} (h : escape c = some text) :
    text.length = 1 ∧ c ≠ '/' ∨ text = [Char.ofNat 0x5c, c] ∧ c ≠ Char.ofNat 0x5c := by
  rw [escape] at h
  split_ifs at h with h₁ h₂ h₃ h₄ h₅ h₆ h₇ h₈ h₉
  all_goals obtain rfl := Option.some.inj h
  · exact .inl ⟨rfl, by rw [h₁]; decide⟩
  · exact .inl ⟨rfl, by rw [h₂]; decide⟩
  · exact .inl ⟨rfl, by rw [h₃]; decide⟩
  · exact .inl ⟨rfl, by rw [h₄]; decide⟩
  · exact .inl ⟨rfl, by rw [h₅]; decide⟩
  · exact .inl ⟨rfl, by rw [h₆]; decide⟩
  · exact .inl ⟨rfl, by rw [h₇]; decide⟩
  · exact .inl ⟨rfl, by rw [h₈]; decide⟩
  · exact .inr ⟨rfl, h₈⟩

/-- A template stands for a text that is the same but for characters that end lines only
    if it stands for itself. In the induction the text is `ahead` of the template. -/
theorem expand_eq_self {home : List Char} (hhome : home.head? = some '/') {fuel : ℕ} :
    ∀ {template ahead x : List Char}, '/' ∉ ahead → (∀ c ∈ template, isBreak c = false) →
      template.length ≤ fuel → expand home fuel template = some x →
      x.filter (fun c => !isBreak c) = ahead ++ template → ahead = [] ∧ x = template := by
  induction fuel with
  | zero =>
    intro template ahead x _ _ hlen hx heq
    obtain rfl := length_eq_zero_iff.1 (Nat.le_zero.1 hlen)
    cases hx
    rw [append_nil] at heq
    exact ⟨heq.symm, rfl⟩
  | succ fuel ih =>
    intro template ahead x hahead hunbroken hlen hx heq
    rcases template with _ | ⟨c, rest⟩
    · cases hx
      rw [append_nil] at heq
      exact ⟨heq.symm, rfl⟩
    have hrest : ∀ d ∈ rest, isBreak d = false := fun d hd => hunbroken d (mem_cons_of_mem _ hd)
    have hlen' : rest.length ≤ fuel := Nat.le_of_succ_le_succ hlen
    -- An escape that stands for less than it is long leaves the text further ahead.
    have hshrink : ∀ {e esc rest' y : List Char}, e.length < esc.length → '/' ∉ esc →
        (∀ c ∈ rest', isBreak c = false) → rest'.length ≤ fuel → expand home fuel rest' = some y →
        e ++ y.filter (fun c => !isBreak c) = ahead ++ (esc ++ rest') → False := by
      intro e esc rest' y hlt hesc hrest' hlen' hy heq
      rw [← append_assoc, append_eq_append_iff] at heq
      rcases heq with ⟨ahead', hsplit, hfilter⟩ | ⟨ahead', hsplit, -⟩
      · have hno : '/' ∉ ahead' := fun hmem => by
          have := hsplit ▸ mem_append_right e hmem
          exact (mem_append.1 this).elim hahead hesc
        obtain ⟨rfl, -⟩ := ih hno hrest' hlen' hy hfilter
        have := congrArg List.length hsplit
        simp only [length_append, length_nil] at this
        omega
      · have := congrArg List.length hsplit
        simp only [length_append] at this
        omega
    -- So does one that stands for one character.
    have hone : ∀ (esc rest' : List Char) {d : Char} {y : List Char}, 1 < esc.length → '/' ∉ esc →
        (∀ c ∈ rest', isBreak c = false) → rest'.length ≤ fuel → expand home fuel rest' = some y →
        (d :: y).filter (fun c => !isBreak c) = ahead ++ (esc ++ rest') → False := by
      intro esc rest' d y hlt hesc hrest' hlen' hy heq
      refine hshrink (e := [d].filter fun c => !isBreak c) ?_ hesc hrest' hlen' hy ?_
      · exact (length_filter_le _ _).trans_lt hlt
      · rw [← heq, ← filter_append]
        rfl
    rw [expand.eq_def] at hx
    dsimp only at hx
    split_ifs at hx with hc
    · obtain ⟨y, hy, rfl⟩ := Option.map_eq_some_iff.1 hx
      rw [filter_cons_of_pos (by simp [hunbroken c mem_cons_self])] at heq
      rcases ahead with _ | ⟨b, ahead⟩
      · obtain ⟨-, rfl⟩ := ih not_mem_nil hrest hlen' hy (List.cons.inj heq).2
        exact ⟨rfl, rfl⟩
      · obtain ⟨rfl, htail⟩ := List.cons.inj heq
        have hno : '/' ∉ ahead ++ [c] := fun hmem => hahead (by simpa [or_comm] using hmem)
        obtain ⟨hnil, -⟩ := ih hno hrest hlen' hy (htail.trans (append_cons _ _ _))
        simp at hnil
    · obtain rfl := not_not.1 hc
      split at hx
      · cases hx
      · -- The home begins with a slash, what comes first with none.
        split_ifs at hx
        obtain ⟨y, -, rfl⟩ := Option.map_eq_some_iff.1 hx
        obtain ⟨h, rfl⟩ : ∃ h, home = '/' :: h := by
          rcases home with _ | ⟨d, h⟩
          · cases hhome
          · exact ⟨h, by rw [Option.some.inj hhome]⟩
        rw [cons_append, filter_cons_of_pos (by decide)] at heq
        rcases ahead with _ | ⟨b, ahead⟩
        · exact absurd (List.cons.inj heq).1 (by decide)
        · exact absurd (mem_cons.2 (.inl (List.cons.inj heq).1)) hahead
      · cases hx
      · split at hx
        · next hd he =>
          obtain ⟨c₀, t₀, rfl, hc₀⟩ := head_octal hd
          obtain ⟨c₁, t₁, rfl, hc₁⟩ := head_octal he
          obtain ⟨y, hy, rfl⟩ := Option.map_eq_some_iff.1 hx
          refine (hone [Char.ofNat 0x5c, '0', c₀, c₁] t₁ (Nat.lt_add_left 2 Nat.one_lt_two) ?_
            (fun d hd => hrest d (by simp [hd])) ?_ hy heq).elim
          · simp [hc₀.symm, hc₁.symm, slash_ne]
          · simp only [length_cons] at hlen'
            omega
        · next hd _ =>
          obtain ⟨c₀, t₀, rfl, hc₀⟩ := head_octal hd
          obtain ⟨y, hy, rfl⟩ := Option.map_eq_some_iff.1 hx
          refine (hone [Char.ofNat 0x5c, '0', c₀] t₀ (Nat.lt_add_left 1 Nat.one_lt_two) ?_
            (fun d hd => hrest d (by simp [hd])) ?_ hy heq).elim
          · simp [hc₀.symm, slash_ne]
          · simp only [length_cons] at hlen'
            omega
        · next rest' _ _ =>
          obtain ⟨y, hy, rfl⟩ := Option.map_eq_some_iff.1 hx
          exact (hone [Char.ofNat 0x5c, '0'] _ Nat.one_lt_two (by decide)
            (fun d hd => hrest d (mem_cons_of_mem _ hd)) (Nat.le_of_succ_le hlen') hy heq).elim
      · next c rest _ _ _ =>
        split_ifs at hx with hdigit
        · split at hx
          · next ha hd he =>
            split_ifs at hx
            obtain ⟨c₀, t₀, rfl, hc₀⟩ := head_octal hd
            obtain ⟨c₁, t₁, rfl, hc₁⟩ := head_octal he
            obtain ⟨y, hy, rfl⟩ := Option.map_eq_some_iff.1 hx
            have hne : c ≠ '/' := by
              rintro rfl
              exact absurd hdigit (by decide)
            refine (hone [Char.ofNat 0x5c, c, c₀, c₁] t₁ (Nat.lt_add_left 2 Nat.one_lt_two) ?_
              (fun d hd => hrest d (by simp [hd])) ?_ hy heq).elim
            · simp [hc₀.symm, hc₁.symm, hne.symm, slash_ne]
            · simp only [length_cons] at hlen'
              omega
          · cases hx
        · obtain ⟨text, htext, hx⟩ := Option.bind_eq_some_iff.1 hx
          obtain ⟨y, hy, rfl⟩ := Option.map_eq_some_iff.1 hx
          have htail : ∀ d ∈ rest, isBreak d = false := fun d hd =>
            hrest d (mem_cons_of_mem _ hd)
          rcases escape_cases htext with ⟨hlen, hne⟩ | ⟨rfl, hne⟩
          · obtain ⟨d, rfl⟩ := length_eq_one_iff.1 hlen
            exact (hone [Char.ofNat 0x5c, c] rest Nat.one_lt_two (by simp [hne.symm, slash_ne]) htail
              (Nat.le_of_succ_le hlen') hy heq).elim
          · -- The escape is kept as it is.
            rw [cons_append, singleton_append, filter_cons_of_pos (by decide),
              filter_cons_of_pos (by simp [hrest c mem_cons_self])] at heq
            rcases ahead with _ | ⟨b, _ | ⟨b', ahead⟩⟩
            · have htext := (List.cons.inj (List.cons.inj heq).2).2
              obtain ⟨-, rfl⟩ := ih not_mem_nil htail (Nat.le_of_succ_le hlen') hy htext
              exact ⟨rfl, rfl⟩
            · exact absurd (List.cons.inj (List.cons.inj heq).2).1 hne
            · obtain ⟨hb', htext⟩ := List.cons.inj (List.cons.inj heq).2
              have hno : '/' ∉ ahead ++ [Char.ofNat 0x5c, c] := fun hmem => by
                refine hahead ?_
                rw [mem_append, mem_pair] at hmem
                rcases hmem with hmem | hmem | hmem
                · simp [hmem]
                · exact absurd hmem slash_ne
                · rw [hmem, hb']
                  exact mem_cons_of_mem _ mem_cons_self
              have hnil := (ih hno htail (Nat.le_of_succ_le hlen') hy (by simpa using htext)).1
              simp at hnil

theorem expandTemplate_eq_self {home destination x : List Char} (hhome : home.head? = some '/')
    (hd : ∀ c ∈ destination, isBreak c = false) (hx : expandTemplate home destination = some x)
    (h : x.filter (fun c => !isBreak c) = destination) : x = destination :=
  (expand_eq_self hhome not_mem_nil hd le_rfl hx h).2

end ReticulumPi.Admin.ConfigPaths
