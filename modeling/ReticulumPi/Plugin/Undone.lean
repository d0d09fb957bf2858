import ReticulumPi.Plugin.Cleanup

/-!
# Every resource is undone once

The cleanup of a resource is called once and no more, whether it came in time or too late:
when nothing is in progress any more, that of each has been called, except for those that
wait for a cleanup to begin. In a cleanup the newest come first, and one waits for those
before it, until one of them takes too long. The count is of those whose cleanup has not
come to its end. All this is `cleanups_once`, by way of the invariant `Sound`, of four
parts.

A resource that its plugin has undone already is undone once more, and counted until then
(`released_undone_again`).
-/

namespace ReticulumPi.Plugin.Cleanup

open Function List

/-- Where a resource is looked for: among those not registered yet, in
    `_managed_cleanups`, in the `callbacks` of a cleanup, or with a thread. -/
def Phase.place : Phase → Phase
  | absent => absent
  | pending => pending
  | taken => taken
  | _ => started

theorem Phase.of_place_pending {p : Phase} (h : p.place = .pending) : p = .pending := by
  cases p <;> first | rfl | (exact absurd h (by decide))

theorem Phase.of_place_taken {p : Phase} (h : p.place = .taken) : p = .taken := by
  cases p <;> first | rfl | (exact absurd h (by decide))

namespace Registry

/-- The resources of a kind whose cleanup has not come to its end. -/
def live (s : Registry) (k : Kind) : Finset ℕ :=
  (Finset.range s.size).filter fun r => s.kind r = some k ∧ (s.phase r).over = false

/-- The thread of the resource `r` is done, or the cleanup has given up one of those in
    `l`. -/
def Past (s : Registry) (r : ℕ) (l : List ℕ) : Prop :=
  s.phase r = .signalled ∨ ∃ q ∈ l, q ∈ s.abandoned

/-- A cleanup has started the threads of the first of its batch, and waits for the last of
    them. -/
def InOrder (s : Registry) (x : Cleaner) : Prop :=
  ∃ front, x.batch = front ++ x.waiting.toList ++ x.todo ∧
    (∀ a r b, front = a ++ r :: b → s.Past r (a ++ [r])) ∧
    ∀ r, x.waiting = some r → x.done = true → s.Past r front

end Registry

variable {s s' : Registry} {r : ℕ}

/-! ## The invariant -/

/-- What is registered, and what waits for a cleanup to begin. -/
structure Placed (s : Registry) : Prop where
  absent : ∀ r, s.size ≤ r ↔ (s.phase r).place = .absent
  managed : ∀ r, r ∈ s.managed ↔ (s.phase r).place = .pending
  nodup : s.managed.Nodup
  complete : s.complete = true → s.managed = []
  enlisted : s.managed.reverse.Sublist s.enlisted

/-- What the cleanups have found, and how far they are. -/
structure Cleaned (s : Registry) : Prop where
  batch : ∀ c x, s.cleaner c = some x → x.batch.Sublist s.enlisted
  inOrder : ∀ c x, s.cleaner c = some x → s.InOrder x
  taken : ∀ c x, s.cleaner c = some x → ∀ r ∈ x.todo, (s.phase r).place = .taken
  nodup : ∀ c x, s.cleaner c = some x → x.todo.Nodup
  disjoint : ∀ c d x y, s.cleaner c = some x → s.cleaner d = some y → c ≠ d →
    ∀ r ∈ x.todo, r ∉ y.todo
  owned : ∀ r, (s.phase r).place = .taken → ∃ c x, s.cleaner c = some x ∧ r ∈ x.todo
  unused : ∀ c, s.nextCleaner ≤ c → s.cleaner c = none
  owner : ∀ r c, s.owner r = some c → ∃ x, s.cleaner c = some x ∧ r ∈ x.batch ∧ r ∉ x.todo

/-- Which cleanups of resources have been called. -/
structure Recorded (s : Registry) : Prop where
  begun : ∀ r, r ∈ s.begun ↔ (s.phase r).acted = true
  nodup : s.begun.Nodup

structure Sound (s : Registry) : Prop where
  placed : Placed s
  cleaned : Cleaned s
  recorded : Recorded s
  counted : ∀ k, s.counts k = (s.live k).card

theorem sound_init : Sound {} where
  placed :=
    { absent := fun _ => iff_of_true (Nat.zero_le _) rfl
      managed := fun _ => iff_of_false not_mem_nil (show ¬Phase.absent = .pending by decide)
      nodup := nodup_nil
      complete := fun _ => rfl
      enlisted := .refl _ }
  cleaned :=
    { batch := fun _ _ h => (Option.some_ne_none _ h.symm).elim
      inOrder := fun _ _ h => (Option.some_ne_none _ h.symm).elim
      taken := fun _ _ h => (Option.some_ne_none _ h.symm).elim
      nodup := fun _ _ h => (Option.some_ne_none _ h.symm).elim
      disjoint := fun _ _ _ _ h => (Option.some_ne_none _ h.symm).elim
      owned := fun _ h => absurd h (show ¬Phase.absent = .taken by decide)
      unused := fun _ _ => rfl
      owner := fun _ _ h => (Option.some_ne_none _ h.symm).elim }
  recorded :=
    { begun := fun _ => iff_of_false not_mem_nil (show ¬false = true by decide)
      nodup := nodup_nil }
  counted _ := rfl

/-! ## What changes elsewhere -/

/-- What a phase says of a resource is the same of all, if it is of the one that changes. -/
theorem update_congr {β : Type*} (f : Phase → β) {φ : ℕ → Phase} {p : Phase}
    (h : f p = f (φ r)) (i : ℕ) : f (update φ r p i) = f (φ i) := by
  by_cases hi : i = r
  · subst hi
    rw [update_self, h]
  · rw [update_of_ne hi]

theorem Registry.Past.mono {l l' : List ℕ} (h : s.Past r l)
    (hphase : s.phase r = .signalled → s'.phase r = .signalled)
    (hl : ∀ q ∈ l, q ∈ l') (habandoned : ∀ q ∈ s.abandoned, q ∈ s'.abandoned) :
    s'.Past r l' := by
  rcases h with h | ⟨q, hq, hq'⟩
  · exact .inl (hphase h)
  · exact .inr ⟨q, hl q hq, habandoned q hq'⟩

theorem Registry.InOrder.mono {x : Cleaner} (h : s.InOrder x)
    (hphase : ∀ r, s.phase r = .signalled → s'.phase r = .signalled)
    (habandoned : ∀ q ∈ s.abandoned, q ∈ s'.abandoned) : s'.InOrder x := by
  obtain ⟨front, hbatch, hfront, hwaiting⟩ := h
  exact ⟨front, hbatch,
    fun a r b hab => (hfront a r b hab).mono (hphase r) (fun _ hq => hq) habandoned,
    fun r hr hdone => (hwaiting r hr hdone).mono (hphase r) (fun _ hq => hq) habandoned⟩

theorem Placed.frame (h : Placed s) (hsize : s'.size = s.size) (hmanaged : s'.managed = s.managed)
    (hcomplete : s'.complete = true → s.complete = true) (henlisted : s'.enlisted = s.enlisted)
    (hplace : ∀ i, (s'.phase i).place = (s.phase i).place) : Placed s' where
  absent i := by rw [hsize, hplace, h.absent]
  managed i := by rw [hmanaged, hplace, h.managed]
  nodup := hmanaged ▸ h.nodup
  complete hc := hmanaged.trans (h.complete (hcomplete hc))
  enlisted := by rw [hmanaged, henlisted]; exact h.enlisted

/-- The cleanups stay where they are, but for what is told them. -/
theorem Cleaned.map (h : Cleaned s) (g : ℕ → Cleaner → Cleaner)
    (hcleaner : ∀ c, s'.cleaner c = (s.cleaner c).map (g c))
    (hbatch : ∀ c x, (g c x).batch = x.batch) (htodo : ∀ c x, (g c x).todo = x.todo)
    (hnext : s'.nextCleaner = s.nextCleaner) (howner : s'.owner = s.owner)
    (henlisted : s.enlisted.Sublist s'.enlisted)
    (htaken : ∀ i, (s'.phase i).place = .taken ↔ (s.phase i).place = .taken)
    (hinOrder : ∀ c x, s.cleaner c = some x → s.InOrder x → s'.InOrder (g c x)) :
    Cleaned s' := by
  have hback : ∀ c y, s'.cleaner c = some y → ∃ x, s.cleaner c = some x ∧ g c x = y := by
    intro c y hy
    rw [hcleaner] at hy
    exact Option.map_eq_some_iff.1 hy
  have hforth : ∀ c x, s.cleaner c = some x → s'.cleaner c = some (g c x) := by
    intro c x hx
    rw [hcleaner, hx]
    rfl
  refine ⟨fun c y hy => ?_, fun c y hy => ?_, fun c y hy r hr => ?_, fun c y hy => ?_,
    fun c d y z hy hz hcd r hr => ?_, fun r hr => ?_, fun c hc => ?_, fun r c hr => ?_⟩
  · obtain ⟨x, hx, rfl⟩ := hback c y hy
    rw [hbatch]
    exact (h.batch c x hx).trans henlisted
  · obtain ⟨x, hx, rfl⟩ := hback c y hy
    exact hinOrder c x hx (h.inOrder c x hx)
  · obtain ⟨x, hx, rfl⟩ := hback c y hy
    rw [htodo] at hr
    exact (htaken r).2 (h.taken c x hx r hr)
  · obtain ⟨x, hx, rfl⟩ := hback c y hy
    rw [htodo]
    exact h.nodup c x hx
  · obtain ⟨x, hx, rfl⟩ := hback c y hy
    obtain ⟨x', hx', rfl⟩ := hback d z hz
    rw [htodo] at hr ⊢
    exact h.disjoint c d x x' hx hx' hcd r hr
  · obtain ⟨c, x, hx, hrx⟩ := h.owned r ((htaken r).1 hr)
    exact ⟨c, g c x, hforth c x hx, (htodo c x).symm ▸ hrx⟩
  · rw [hcleaner, h.unused c (hnext ▸ hc)]
    rfl
  · rw [howner] at hr
    obtain ⟨x, hx, hrb, hrt⟩ := h.owner r c hr
    exact ⟨g c x, hforth c x hx, (hbatch c x).symm ▸ hrb, (htodo c x).symm ▸ hrt⟩

theorem Cleaned.frame (h : Cleaned s) (hcleaner : s'.cleaner = s.cleaner)
    (hnext : s'.nextCleaner = s.nextCleaner) (howner : s'.owner = s.owner)
    (henlisted : s.enlisted.Sublist s'.enlisted) (habandoned : s'.abandoned = s.abandoned)
    (htaken : ∀ i, (s'.phase i).place = .taken ↔ (s.phase i).place = .taken)
    (hsignalled : ∀ i, s.phase i = .signalled → s'.phase i = .signalled) : Cleaned s' :=
  h.map (fun _ x => x) (fun c => by rw [hcleaner, Option.map_id']) (fun _ _ => rfl)
    (fun _ _ => rfl) hnext howner henlisted htaken
    fun _ _ _ hx => hx.mono hsignalled fun _ hq => habandoned ▸ hq

theorem Recorded.frame (h : Recorded s) (hbegun : s'.begun = s.begun)
    (hacted : ∀ i, (s'.phase i).acted = (s.phase i).acted) : Recorded s' where
  begun i := by rw [hbegun, hacted, h.begun]
  nodup := hbegun ▸ h.nodup

theorem live_congr (hsize : s'.size = s.size) (hkind : s'.kind = s.kind)
    (hover : ∀ i, (s'.phase i).over = (s.phase i).over) (k : Kind) : s'.live k = s.live k := by
  simp only [Registry.live, hsize, hkind, hover]

/-- Nothing of what `Sound` speaks of changes, but for what is told the cleanups. -/
theorem Sound.frame (h : Sound s) (hsize : s'.size = s.size) (hkind : s'.kind = s.kind)
    (hphase : s'.phase = s.phase) (howner : s'.owner = s.owner) (hcounts : s'.counts = s.counts)
    (hmanaged : s'.managed = s.managed) (hcomplete : s'.complete = true → s.complete = true)
    (hcleaner : s'.cleaner = s.cleaner) (hnext : s'.nextCleaner = s.nextCleaner)
    (henlisted : s'.enlisted = s.enlisted) (hbegun : s'.begun = s.begun)
    (habandoned : s'.abandoned = s.abandoned) : Sound s' where
  placed := h.placed.frame hsize hmanaged hcomplete henlisted fun _ => by rw [hphase]
  cleaned := h.cleaned.frame hcleaner hnext howner (henlisted ▸ .refl _) habandoned
    (fun _ => by rw [hphase]) fun _ hi => by rw [hphase]; exact hi
  recorded := h.recorded.frame hbegun fun _ => by rw [hphase]
  counted k := by
    rw [hcounts, h.counted, live_congr hsize hkind (fun _ => by rw [hphase])]

/-! ## The steps -/

section Steps

variable {p q : Phase}

/-- A resource that a thread has goes on, without anything said of it elsewhere. -/
theorem Sound.setPhase (h : Sound s) (hr : s.phase r = q) (hplace : p.place = q.place)
    (hsignalled : q ≠ .signalled) (hacted : p.acted = q.acted) (hover : p.over = q.over) :
    Sound (s.setPhase r p) where
  placed := h.placed.frame rfl rfl id rfl (update_congr Phase.place (by rw [hr, hplace]))
  cleaned := h.cleaned.frame rfl rfl rfl (.refl _) rfl
    (fun i => by
      change (update s.phase r p i).place = _ ↔ _
      rw [update_congr Phase.place (by rw [hr, hplace])])
    (fun i hi => by
      change update s.phase r p i = _
      rwa [update_of_ne]
      rintro rfl
      exact hsignalled (hr.symm.trans hi))
  recorded := h.recorded.frame rfl (update_congr Phase.acted (by rw [hr, hacted]))
  counted k := by
    refine (h.counted k).trans (congrArg Finset.card (live_congr ?_ ?_ ?_ k).symm)
    exacts [rfl, rfl, update_congr Phase.over (by rw [hr, hover])]

/-- The same for what the cleanups know. -/
theorem Cleaned.setPhase (h : Cleaned s) (hr : s.phase r = q) (hplace : p.place = q.place)
    (hsignalled : q ≠ .signalled) (hcleaner : s'.cleaner = s.cleaner)
    (hnext : s'.nextCleaner = s.nextCleaner) (howner : s'.owner = s.owner)
    (henlisted : s'.enlisted = s.enlisted) (habandoned : s'.abandoned = s.abandoned)
    (hphase : s'.phase = update s.phase r p) : Cleaned s' :=
  h.frame hcleaner hnext howner (henlisted ▸ .refl _) habandoned
    (fun i => by rw [hphase, update_congr Phase.place (by rw [hr, hplace])])
    fun i hi => by
      rw [hphase, update_of_ne, hi]
      rintro rfl
      exact hsignalled (hr.symm.trans hi)

variable (h : Sound s)
include h

theorem Sound.register (kind : Option Kind) : Sound (s.register kind) := by
  have habsent : (s.phase s.size).place = .absent := (h.placed.absent _).1 (le_refl _)
  have hphase : ∀ {i}, i ≠ s.size → (s.register kind).phase i = s.phase i :=
    fun hi => update_of_ne hi _ _
  have hself : (s.register kind).phase s.size = .entering := update_self ..
  refine ⟨⟨fun i => ?_, fun i => ?_, h.placed.nodup, h.placed.complete, h.placed.enlisted⟩,
    h.cleaned.frame rfl rfl rfl (.refl _) rfl (fun i => ?_) (fun i hi => ?_),
    h.recorded.frame rfl fun i => ?_, fun k => ?_⟩
  · by_cases hi : i = s.size
    · subst hi
      rw [hself]
      exact iff_of_false (Nat.not_succ_le_self _) (by decide)
    · rw [hphase hi, ← h.placed.absent i]
      exact ⟨Nat.le_of_succ_le, fun hle => Nat.lt_of_le_of_ne hle (Ne.symm hi)⟩
  · by_cases hi : i = s.size
    · subst hi
      rw [hself]
      refine iff_of_false (fun hm => ?_) (by decide)
      exact absurd (habsent.symm.trans ((h.placed.managed _).1 hm)) (by decide)
    · rw [hphase hi]
      exact h.placed.managed i
  · by_cases hi : i = s.size
    · subst hi
      rw [hself, habsent]
      decide
    · rw [hphase hi]
  · rw [hphase, hi]
    rintro rfl
    rw [hi] at habsent
    exact absurd habsent (by decide)
  · by_cases hi : i = s.size
    · subst hi
      rw [hself]
      cases hs : s.phase s.size <;> first | rfl | (rw [hs] at habsent; cases habsent)
    · rw [hphase hi]
  · -- The new resource is one more of its kind, and nothing else of it changes.
    have hold : ∀ i ∈ Finset.range s.size,
        ((s.register kind).kind i = some k ∧ ((s.register kind).phase i).over = false ↔
          s.kind i = some k ∧ (s.phase i).over = false) := by
      intro i hi
      have hi : i ≠ s.size := (Finset.mem_range.1 hi).ne
      rw [hphase hi, show (s.register kind).kind i = s.kind i from update_of_ne hi ..]
    have hlive : (s.register kind).live k =
        if kind = some k then insert s.size (s.live k) else s.live k := by
      rw [Registry.live, show (s.register kind).size = s.size + 1 from rfl,
        Finset.range_add_one, Finset.filter_insert, Finset.filter_congr hold, hself,
        show (s.register kind).kind s.size = kind from update_self ..]
      simp only [Phase.over, and_true, Registry.live]
    rw [hlive, show (s.register kind).counts k = if kind = some k then s.counts k + 1
      else s.counts k from rfl, h.counted]
    split_ifs with hk
    · rw [Finset.card_insert_of_notMem]
      exact fun hm => Finset.notMem_range_self (Finset.mem_filter.1 hm).1
    · rfl

theorem Sound.enlist (hr : s.phase r = .entering) : Sound (s.enlist r) := by
  by_cases hc : s.complete = true
  · rw [Registry.enlist, if_pos hc]
    exact h.setPhase hr rfl nofun rfl rfl
  · rw [Registry.enlist, if_neg hc]
    have hr' : r ∉ s.managed := by
      rw [h.placed.managed, hr]
      decide
    have hphase : ∀ {i}, i ≠ r → update s.phase r .pending i = s.phase i :=
      fun hi => update_of_ne hi _ _
    refine ⟨⟨fun i => ?_, fun i => ?_, ?_, fun h => (hc h).elim, ?_⟩,
      h.cleaned.frame rfl rfl rfl (sublist_cons_self _ _) rfl (fun i => ?_)
        (fun i hi => ?_),
      h.recorded.frame rfl (update_congr Phase.acted (by rw [hr]; rfl)), fun k => ?_⟩
    · change s.size ≤ i ↔ (update s.phase r .pending i).place = .absent
      by_cases hi : i = r
      · subst hi
        rw [update_self, h.placed.absent, hr]
        decide
      · rw [hphase hi, h.placed.absent]
    · change i ∈ s.managed ++ [r] ↔ (update s.phase r .pending i).place = .pending
      rw [mem_append, mem_singleton]
      by_cases hi : i = r
      · subst hi
        rw [update_self]
        exact iff_of_true (.inr rfl) rfl
      · rw [hphase hi, h.placed.managed]
        exact or_iff_left hi
    · exact nodup_append.2 ⟨h.placed.nodup, nodup_singleton r, fun a ha b hb =>
        fun hab => hr' (mem_singleton.1 hb ▸ hab ▸ ha)⟩
    · change (s.managed ++ [r]).reverse.Sublist (r :: s.enlisted)
      rw [reverse_append]
      exact h.placed.enlisted.cons_cons r
    · change (update s.phase r .pending i).place = .taken ↔ (s.phase i).place = .taken
      by_cases hi : i = r
      · subst hi
        rw [update_self, hr]
        decide
      · rw [hphase hi]
    · change update s.phase r .pending i = .signalled
      rwa [hphase]
      rintro rfl
      exact absurd (hr.symm.trans hi) (by decide)
    · refine (h.counted k).trans (congrArg Finset.card (live_congr ?_ ?_ ?_ k).symm)
      exacts [rfl, rfl, update_congr Phase.over (by rw [hr]; rfl)]

theorem Sound.cleanUp : Sound s.cleanUp := by
  by_cases hc : s.complete = true
  · rwa [Registry.cleanUp, if_pos hc]
  · rw [Registry.cleanUp, if_neg hc]
    set φ : ℕ → Phase := fun r => if r ∈ s.managed then .taken else s.phase r with hφ
    set x : Cleaner := { batch := s.managed.reverse, todo := s.managed.reverse } with hx
    have hin : ∀ {i}, i ∈ s.managed → φ i = .taken := fun hi => if_pos hi
    have hout : ∀ {i}, i ∉ s.managed → φ i = s.phase i := fun hi => if_neg hi
    have hpending : ∀ {i}, i ∈ s.managed → s.phase i = .pending :=
      fun {i} hi => Phase.of_place_pending ((h.placed.managed i).1 hi)
    have hnew : s.cleaner s.nextCleaner = none := h.cleaned.unused _ (le_refl _)
    have hself : update s.cleaner s.nextCleaner (some x) s.nextCleaner = some x := update_self ..
    -- A cleanup is either the new one, or one that was there before.
    have hcases : ∀ {c y}, update s.cleaner s.nextCleaner (some x) c = some y →
        c = s.nextCleaner ∧ y = x ∨ c ≠ s.nextCleaner ∧ s.cleaner c = some y := by
      intro c y hy
      by_cases hi : c = s.nextCleaner
      · subst hi
        rw [update_self] at hy
        exact .inl ⟨rfl, (Option.some.inj hy).symm⟩
      · rw [update_of_ne hi] at hy
        exact .inr ⟨hi, hy⟩
    have hold : ∀ {c y}, s.cleaner c = some y →
        update s.cleaner s.nextCleaner (some x) c = some y := by
      intro c y hy
      rwa [update_of_ne]
      rintro rfl
      exact Option.some_ne_none _ (hy.symm.trans hnew)
    -- What waits for a cleanup is in the `callbacks` of none.
    have htodo : ∀ {c y i}, s.cleaner c = some y → i ∈ y.todo → i ∉ s.managed := by
      intro c y i hy hi hm
      have := h.cleaned.taken c y hy i hi
      rw [hpending hm] at this
      cases this
    have hsignalled : ∀ i, s.phase i = .signalled → φ i = .signalled := by
      intro i hi
      rw [hout, hi]
      exact fun hm => absurd (hi.symm.trans (hpending hm)) (by decide)
    refine ⟨⟨fun i => ?_, fun i => ?_, nodup_nil, fun _ => rfl, nil_sublist _⟩,
      ⟨fun c y hy => ?_, fun c y hy => ?_, fun c y hy i hi => ?_, fun c y hy => ?_,
        fun c d y z hy hz hcd i hi hi' => ?_, fun i hi => ?_, fun c hc => ?_, fun i c hi => ?_⟩,
      h.recorded.frame rfl fun i => ?_, fun k => ?_⟩
    · change s.size ≤ i ↔ (φ i).place = .absent
      rw [h.placed.absent]
      by_cases hi : i ∈ s.managed
      · rw [hpending hi, hin hi]
        decide
      · rw [hout hi]
    · change i ∈ [] ↔ (φ i).place = .pending
      refine iff_of_false not_mem_nil fun hp => ?_
      by_cases hi : i ∈ s.managed
      · rw [hin hi] at hp
        cases hp
      · rw [hout hi] at hp
        exact hi ((h.placed.managed i).2 hp)
    · rcases hcases hy with ⟨-, rfl⟩ | ⟨-, hy⟩
      · exact h.placed.enlisted
      · exact h.cleaned.batch c y hy
    · rcases hcases hy with ⟨-, rfl⟩ | ⟨-, hy⟩
      · exact ⟨[], rfl, fun a r b hab => (append_ne_nil_of_right_ne_nil a
          (cons_ne_nil r b) hab.symm).elim, nofun⟩
      · exact (h.cleaned.inOrder c y hy).mono hsignalled fun _ hq => hq
    · change (φ i).place = .taken
      rcases hcases hy with ⟨-, rfl⟩ | ⟨-, hy⟩
      · rw [hin (mem_reverse.1 hi)]
        rfl
      · rw [hout (htodo hy hi)]
        exact h.cleaned.taken c y hy i hi
    · rcases hcases hy with ⟨-, rfl⟩ | ⟨-, hy⟩
      · exact nodup_reverse.2 h.placed.nodup
      · exact h.cleaned.nodup c y hy
    · rcases hcases hy with ⟨rfl, rfl⟩ | ⟨-, hy⟩ <;> rcases hcases hz with ⟨rfl, rfl⟩ | ⟨-, hz⟩
      · exact hcd rfl
      · exact htodo hz hi' (mem_reverse.1 hi)
      · exact htodo hy hi (mem_reverse.1 hi')
      · exact h.cleaned.disjoint c d y z hy hz hcd i hi hi'
    · change (φ i).place = .taken at hi
      by_cases hm : i ∈ s.managed
      · exact ⟨s.nextCleaner, x, hself, mem_reverse.2 hm⟩
      · rw [hout hm] at hi
        obtain ⟨c, y, hy, hiy⟩ := h.cleaned.owned i hi
        exact ⟨c, y, hold hy, hiy⟩
    · change update s.cleaner s.nextCleaner (some x) c = none
      rw [update_of_ne (Nat.lt_of_succ_le hc).ne', h.cleaned.unused c (Nat.le_of_succ_le hc)]
    · obtain ⟨y, hy, hib, hit⟩ := h.cleaned.owner i c hi
      exact ⟨y, hold hy, hib, hit⟩
    · change (φ i).acted = (s.phase i).acted
      by_cases hi : i ∈ s.managed
      · rw [hin hi, hpending hi]
        rfl
      · rw [hout hi]
    · refine (h.counted k).trans (congrArg Finset.card (live_congr ?_ ?_ (fun i => ?_) k).symm)
      · rfl
      · rfl
      · change (φ i).over = (s.phase i).over
        by_cases hi : i ∈ s.managed
        · rw [hin hi, hpending hi]
          rfl
        · rw [hout hi]

theorem Sound.start {c : ℕ} {x : Cleaner} {todo : List ℕ}
    (hc : s.cleaner c = some x) (hwaiting : x.waiting = none) (htodo : x.todo = r :: todo) :
    Sound (s.start c r x todo) := by
  have hr : (s.phase r).place = .taken :=
    h.cleaned.taken c x hc r (htodo ▸ mem_cons_self)
  have hphase : s.phase r = .taken := Phase.of_place_taken hr
  have hnodup := htodo ▸ h.cleaned.nodup c x hc
  have hother : ∀ {i}, i ≠ r → update s.phase r .started i = s.phase i :=
    fun hi => update_of_ne hi _ _
  set y : Cleaner := { batch := x.batch, todo, waiting := some r } with hy
  have hcases : ∀ {d z}, update s.cleaner c (some y) d = some z →
      d = c ∧ z = y ∨ d ≠ c ∧ s.cleaner d = some z := by
    intro d z hz
    by_cases hi : d = c
    · subst hi
      rw [update_self] at hz
      exact .inl ⟨rfl, (Option.some.inj hz).symm⟩
    · rw [update_of_ne hi] at hz
      exact .inr ⟨hi, hz⟩
  have hsignalled : ∀ i, s.phase i = .signalled → update s.phase r .started i = .signalled := by
    intro i hi
    rw [hother, hi]
    rintro rfl
    exact absurd (hphase.symm.trans hi) (by decide)
  have hsub : ∀ {i}, i ∈ todo → i ∈ x.todo := fun hi => htodo ▸ mem_cons_of_mem r hi
  obtain ⟨front, hbatch, hfront, -⟩ := h.cleaned.inOrder c x hc
  rw [hwaiting, htodo, Option.toList_none, append_nil] at hbatch
  have hplace : ∀ q : Phase, q ≠ .started → q ≠ .taken → ∀ i,
      (update s.phase r .started i).place = q ↔ (s.phase i).place = q := by
    intro q hq hq' i
    by_cases hi : i = r
    · subst hi
      rw [update_self, hr]
      exact iff_of_false hq.symm hq'.symm
    · rw [hother hi]
  refine ⟨⟨fun i => ?_, fun i => ?_, h.placed.nodup, h.placed.complete, h.placed.enlisted⟩,
    ⟨fun d z hz => ?_, fun d z hz => ?_, fun d z hz i hi => ?_, fun d z hz => ?_,
      fun d e z w hz hw hde i hi hi' => ?_, fun i hi => ?_, fun d hd => ?_, fun i d hi => ?_⟩,
    h.recorded.frame rfl (update_congr Phase.acted (by rw [hphase]; rfl)), fun k => ?_⟩
  · exact (h.placed.absent i).trans (hplace .absent (by decide) (by decide) i).symm
  · exact (h.placed.managed i).trans (hplace .pending (by decide) (by decide) i).symm
  · rcases hcases hz with ⟨rfl, rfl⟩ | ⟨-, hz⟩
    · exact h.cleaned.batch d x hc
    · exact h.cleaned.batch d z hz
  · rcases hcases hz with ⟨rfl, rfl⟩ | ⟨-, hz⟩
    · -- The wait for `r` begins, and `done` is not set.
      refine ⟨front, ?_, fun a i b hab => ?_, nofun⟩
      · rw [hbatch, append_assoc]
        rfl
      · exact (hfront a i b hab).mono (hsignalled i) (fun _ hq => hq) fun _ hq => hq
    · exact (h.cleaned.inOrder d z hz).mono hsignalled fun _ hq => hq
  · change (update s.phase r .started i).place = .taken
    rcases hcases hz with ⟨rfl, rfl⟩ | ⟨hd, hz'⟩
    · rw [hother]
      · exact h.cleaned.taken d x hc i (hsub hi)
      · rintro rfl
        exact (nodup_cons.1 hnodup).1 hi
    · rw [hother]
      · exact h.cleaned.taken d z hz' i hi
      · rintro rfl
        exact h.cleaned.disjoint d c z x hz' hc hd i hi (htodo ▸ mem_cons_self)
  · rcases hcases hz with ⟨rfl, rfl⟩ | ⟨-, hz⟩
    · exact (nodup_cons.1 hnodup).2
    · exact h.cleaned.nodup d z hz
  · rcases hcases hz with ⟨rfl, rfl⟩ | ⟨hd, hz'⟩ <;>
      rcases hcases hw with ⟨rfl, rfl⟩ | ⟨he, hw'⟩
    · exact hde rfl
    · exact h.cleaned.disjoint d e x w hc hw' hde i (hsub hi) hi'
    · exact h.cleaned.disjoint d e z x hz' hc hde i hi (hsub hi')
    · exact h.cleaned.disjoint d e z w hz' hw' hde i hi hi'
  · change (update s.phase r .started i).place = .taken at hi
    have hir : i ≠ r := by
      rintro rfl
      rw [update_self] at hi
      cases hi
    rw [hother hir] at hi
    obtain ⟨d, z, hz, hiz⟩ := h.cleaned.owned i hi
    by_cases hd : d = c
    · subst hd
      cases hc.symm.trans hz
      refine ⟨d, y, update_self .., ?_⟩
      exact (mem_cons.1 (htodo ▸ hiz)).resolve_left hir
    · exact ⟨d, z, (update_of_ne hd ..).trans hz, hiz⟩
  · change update s.cleaner c (some y) d = none
    rw [update_of_ne]
    · exact h.cleaned.unused d hd
    · rintro rfl
      exact Option.some_ne_none _ (hc.symm.trans (h.cleaned.unused d hd))
  · change update s.owner r (some c) i = some d at hi
    by_cases hir : i = r
    · subst hir
      rw [update_self] at hi
      cases hi
      refine ⟨y, update_self .., ?_, (nodup_cons.1 hnodup).1⟩
      rw [hy, hbatch]
      exact mem_append_right _ mem_cons_self
    · rw [update_of_ne hir] at hi
      obtain ⟨z, hz, hib, hit⟩ := h.cleaned.owner i d hi
      by_cases hd : d = c
      · subst hd
        cases hc.symm.trans hz
        exact ⟨y, update_self .., hib, fun hm => hit (hsub hm)⟩
      · exact ⟨z, (update_of_ne hd ..).trans hz, hib, hit⟩
  · refine (h.counted k).trans (congrArg Finset.card (live_congr ?_ ?_ ?_ k).symm)
    exacts [rfl, rfl, update_congr Phase.over (by rw [hphase]; rfl)]

theorem Sound.stopWaiting {c : ℕ} {x : Cleaner} (hc : s.cleaner c = some x)
    (hr : x.waiting = some r) : Sound (s.stopWaiting c r x) where
  placed := h.placed.frame rfl rfl id rfl fun _ => rfl
  cleaned := by
    have habandoned : ∀ q ∈ s.abandoned, q ∈ (s.stopWaiting c r x).abandoned := by
      intro q hq
      change q ∈ if x.done then s.abandoned else r :: s.abandoned
      split_ifs
      · exact hq
      · exact mem_cons_of_mem r hq
    refine h.cleaned.map (fun d y => if d = c then { y with waiting := none } else y)
      (fun d => ?_) (fun d y => ?_) (fun d y => ?_) rfl rfl (.refl _)
      (fun _ => Iff.rfl) (fun d y hd hy => ?_)
    · change update s.cleaner c _ d = _
      by_cases hd : d = c
      · subst hd
        rw [update_self, hc]
        simp only [Option.map_some, if_pos]
      · rw [update_of_ne hd]
        simp only [hd, if_false, Option.map_id']
    · split_ifs <;> rfl
    · split_ifs <;> rfl
    · split_ifs with hdc
      · subst hdc
        cases hc.symm.trans hd
        obtain ⟨front, hbatch, hfront, hdone⟩ := hy
        rw [hr] at hbatch
        refine ⟨front ++ [r], by rw [hbatch]; simp, fun a i b hab => ?_, nofun⟩
        rcases eq_nil_or_concat b with rfl | ⟨b, j, rfl⟩
        · -- The wait was for `i`: `done` was set, or it is given up.
          obtain ⟨rfl, hi⟩ := append_inj' hab rfl
          cases hi
          by_cases hx : x.done = true
          · exact (hdone r hr hx).mono id (fun _ hq => mem_append_left _ hq) habandoned
          · refine .inr ⟨r, mem_append_right _ mem_cons_self, ?_⟩
            change r ∈ if x.done then s.abandoned else r :: s.abandoned
            rw [if_neg hx]
            exact mem_cons_self
        · rw [concat_eq_append, ← cons_append, ← append_assoc] at hab
          exact (hfront a i b (append_inj' hab rfl).1).mono id (fun _ hq => hq) habandoned
      · exact hy.mono (fun _ hi => hi) habandoned
  recorded := h.recorded.frame rfl fun _ => rfl
  counted k := h.counted k

theorem Sound.undo (hr : s.phase r = .started) :
    Sound { s.setPhase r .undoing with begun := r :: s.begun } where
  placed := h.placed.frame rfl rfl id rfl (update_congr Phase.place (by rw [hr]; rfl))
  cleaned := h.cleaned.setPhase (p := .undoing) hr rfl nofun rfl rfl rfl rfl rfl rfl
  recorded :=
    { begun := fun i => by
        change i ∈ r :: s.begun ↔ (update s.phase r .undoing i).acted = true
        rw [mem_cons]
        by_cases hi : i = r
        · subst hi
          rw [update_self]
          exact iff_of_true (.inl rfl) rfl
        · rw [update_of_ne hi, h.recorded.begun]
          exact or_iff_right hi
      nodup := by
        refine nodup_cons.2 ⟨fun hm => ?_, h.recorded.nodup⟩
        have := (h.recorded.begun r).1 hm
        rw [hr] at this
        cases this }
  counted k := by
    refine (h.counted k).trans (congrArg Finset.card (live_congr ?_ ?_ ?_ k).symm)
    exacts [rfl, rfl, update_congr Phase.over (by rw [hr]; rfl)]

theorem Sound.account (hr : s.phase r = .undone) : Sound (s.account r) where
  placed := h.placed.frame rfl rfl id rfl (update_congr Phase.place (by rw [hr]; rfl))
  cleaned := h.cleaned.setPhase (p := .finished) hr rfl nofun rfl rfl rfl rfl rfl rfl
  recorded := h.recorded.frame rfl (update_congr Phase.acted (by rw [hr]; rfl))
  counted k := by
    have hlive : (s.account r).live k = (s.live k).erase r := by
      ext i
      simp only [Registry.live, Finset.mem_erase, Finset.mem_filter]
      change _ ∧ s.kind i = some k ∧ (update s.phase r .finished i).over = false ↔ _
      by_cases hi : i = r
      · subst hi
        rw [update_self]
        exact iff_of_false (fun hm => absurd hm.2.2 (by decide)) fun hm => hm.1 rfl
      · rw [update_of_ne hi]
        exact ⟨fun hm => ⟨hi, hm⟩, fun hm => hm.2⟩
    rw [hlive]
    change (if s.kind r = some k then s.counts k - 1 else s.counts k) = _
    rw [h.counted]
    split_ifs with hk
    · refine (Finset.card_erase_of_mem (Finset.mem_filter.2 ⟨?_, hk, by rw [hr]; rfl⟩)).symm
      rw [Finset.mem_range, ← not_le, h.placed.absent, hr]
      decide
    · rw [Finset.erase_eq_of_notMem]
      exact fun hm => hk (Finset.mem_filter.1 hm).2.1

omit h

/-- What a thread tells the cleanup that has started it does not change where this is. -/
theorem Cleaned.tell (h : Cleaned s) {f : Cleaner → Cleaner} (hbatch : ∀ x, (f x).batch = x.batch)
    (htodo : ∀ x, (f x).todo = x.todo)
    (hinOrder : ∀ c x, s.owner r = some c → s.cleaner c = some x → s.InOrder (f x)) :
    Cleaned (s.tell r f) := by
  refine h.map (fun c x => if s.owner r = some c then f x else x) (fun c => ?_) (fun c x => ?_)
    (fun c x => ?_) rfl rfl (.refl _) (fun _ => Iff.rfl) (fun c x hc hx => ?_)
  · change (if s.owner r = some c then (s.cleaner c).map f else s.cleaner c) = _
    split_ifs
    · rfl
    · exact Option.map_id'.symm
  · split_ifs
    exacts [hbatch x, rfl]
  · split_ifs
    exacts [htodo x, rfl]
  · split_ifs with ho
    · exact hinOrder c x ho hc
    · exact hx

theorem Sound.report (h : Sound s) (hr : s.phase r = .finished) : Sound (s.report r) := by
  have h' := h.setPhase (p := .reported) hr rfl nofun rfl rfl
  refine ⟨h'.placed.frame rfl rfl id rfl fun _ => rfl, ?_,
    h'.recorded.frame rfl fun _ => rfl, h'.counted⟩
  exact h'.cleaned.tell (fun _ => rfl) (fun _ => rfl) fun c x _ hc => h'.cleaned.inOrder c x hc

theorem Sound.signal (h : Sound s) (hr : s.phase r = .reported) : Sound (s.signal r) := by
  have h' := h.setPhase (p := .signalled) hr rfl nofun rfl rfl
  refine ⟨h'.placed.frame rfl rfl id rfl fun _ => rfl, ?_,
    h'.recorded.frame rfl fun _ => rfl, h'.counted⟩
  refine h'.cleaned.tell (fun _ => rfl) (fun _ => rfl) fun c x ho hc => ?_
  obtain ⟨front, hbatch, hfront, hdone⟩ := h'.cleaned.inOrder c x hc
  refine ⟨front, hbatch, hfront, fun i hi _ => ?_⟩
  obtain ⟨y, hy, hrb, hrt⟩ := h.cleaned.owner r c ho
  cases hy.symm.trans hc
  -- The thread is the one that is waited for, or one that the cleanup has gone on from.
  rw [hbatch, hi, Option.toList_some, mem_append, mem_append, mem_singleton] at hrb
  rcases hrb.resolve_right hrt with hm | rfl
  · obtain ⟨front', hbatch', hfront', -⟩ := h.cleaned.inOrder c x hc
    have hfront_eq : front' = front :=
      append_cancel_right (append_cancel_right (hbatch'.symm.trans hbatch))
    subst hfront_eq
    obtain ⟨a, b, hab⟩ := append_of_mem hm
    rcases hfront' a r b hab with hs | ⟨q, hq, hq'⟩
    · exact absurd (hr.symm.trans hs) (by decide)
    · refine .inr ⟨q, ?_, hq'⟩
      rw [hab, append_cons]
      exact mem_append_left _ hq
  · exact .inl (update_self ..)

theorem Sound.next (h : Sound s) {e : Event} (hs : s.next e = some s') : Sound s' := by
  cases e with
  | register kind =>
    cases hs
    exact h.register kind
  | enlist r =>
    obtain ⟨hr, hs⟩ := Option.ite_none_right_eq_some.1 hs
    cases hs
    exact h.enlist hr
  | startLate r =>
    obtain ⟨hr, hs⟩ := Option.ite_none_right_eq_some.1 hs
    cases hs
    have h' := h.setPhase (p := .started) hr rfl nofun rfl rfl
    exact h'.frame rfl rfl rfl rfl rfl rfl id rfl rfl rfl rfl rfl
  | leave r | release r =>
    obtain ⟨-, hs⟩ := Option.ite_none_right_eq_some.1 hs
    cases hs
    exact h.frame rfl rfl rfl rfl rfl rfl id rfl rfl rfl rfl rfl
  | cleanUp =>
    cases hs
    exact h.cleanUp
  | startNext c =>
    rw [Registry.next] at hs
    split at hs
    · cases hs
    · next x hc =>
      split at hs
      · next r todo hwaiting htodo =>
        cases hs
        exact h.start hc hwaiting htodo
      · cases hs
  | waited c =>
    rw [Registry.next] at hs
    split at hs
    · cases hs
    · next x hc =>
      split at hs
      · next r hr =>
        cases hs
        exact h.stopWaiting hc hr
      · cases hs
  | undo r =>
    obtain ⟨hr, hs⟩ := Option.ite_none_right_eq_some.1 hs
    cases hs
    exact h.undo hr
  | undone r raised =>
    obtain ⟨hr, hs⟩ := Option.ite_none_right_eq_some.1 hs
    cases hs
    have h' := h.setPhase (p := .undone) hr rfl nofun rfl rfl
    exact h'.frame rfl rfl rfl rfl rfl rfl id rfl rfl rfl rfl rfl
  | account r =>
    obtain ⟨hr, hs⟩ := Option.ite_none_right_eq_some.1 hs
    cases hs
    exact h.account hr
  | report r =>
    obtain ⟨hr, hs⟩ := Option.ite_none_right_eq_some.1 hs
    cases hs
    exact h.report hr
  | signal r =>
    obtain ⟨hr, hs⟩ := Option.ite_none_right_eq_some.1 hs
    cases hs
    exact h.signal hr
  | markStarting =>
    cases hs
    exact h.frame rfl rfl rfl rfl rfl rfl nofun rfl rfl rfl rfl rfl

end Steps

theorem sound_reachable (h : system.Reachable s) : Sound s := by
  refine Transition.Reach.induction (I := Sound) ?_ ?_ h
  · rintro _ rfl
    exact sound_init
  · exact fun _ _ _ h _ hs => h.next hs

/-! ## The result -/

/-- What a call or a thread in progress does, not what begins by itself. -/
def Event.ongoing : Event → Bool
  | .register _ | .cleanUp | .release _ | .markStarting => false
  | _ => true

/-- No registration, cleanup or thread is in progress. -/
def Registry.Quiet (s : Registry) : Prop := ∀ e, e.ongoing = true → s.next e = none

/-- When nothing is in progress, what does not wait for a cleanup has been undone. -/
theorem Sound.signalled (h : Sound s) (hquiet : s.Quiet) (hr : r < s.size)
    (hm : r ∉ s.managed) : s.phase r = .signalled := by
  cases hp : s.phase r with
  | absent =>
    have := (h.placed.absent r).2 (by rw [hp]; rfl)
    exact absurd hr this.not_gt
  | entering =>
    have := hquiet (.enlist r) rfl
    rw [Registry.next, if_pos hp] at this
    cases this
  | pending => exact (hm ((h.placed.managed r).2 (by rw [hp]; rfl))).elim
  | taken =>
    -- A cleanup that has not started its thread can go on.
    obtain ⟨c, x, hc, hx⟩ := h.cleaned.owned r (by rw [hp]; rfl)
    cases hw : x.waiting with
    | none =>
      obtain ⟨q, todo, hq⟩ := exists_cons_of_ne_nil (ne_nil_of_mem hx)
      have := hquiet (.startNext c) rfl
      simp only [Registry.next, hc, hw, hq] at this
      cases this
    | some q =>
      have := hquiet (.waited c) rfl
      simp only [Registry.next, hc, hw] at this
      cases this
  | late =>
    have := hquiet (.startLate r) rfl
    rw [Registry.next, if_pos hp] at this
    cases this
  | started =>
    have := hquiet (.undo r) rfl
    rw [Registry.next, if_pos hp] at this
    cases this
  | undoing =>
    have := hquiet (.undone r true) rfl
    rw [Registry.next, if_pos hp] at this
    cases this
  | undone =>
    have := hquiet (.account r) rfl
    rw [Registry.next, if_pos hp] at this
    cases this
  | finished =>
    have := hquiet (.report r) rfl
    rw [Registry.next, if_pos hp] at this
    cases this
  | reported =>
    have := hquiet (.signal r) rfl
    rw [Registry.next, if_pos hp] at this
    cases this
  | signalled => rfl

/-- The cleanup of a resource begins when those of all newer ones are over, unless one of
    them is given up. -/
theorem Sound.inTurn (h : Sound s) {c : ℕ} {x : Cleaner} (hc : s.cleaner c = some x)
    {a b : List ℕ} {q : ℕ} (hab : x.batch = a ++ q :: b) (hr : r ∈ b) (hbegun : r ∈ s.begun) :
    s.Past q (a ++ [q]) := by
  obtain ⟨front, hbatch, hfront, -⟩ := h.cleaned.inOrder c x hc
  have hrt : r ∉ x.todo := by
    intro hm
    have hacted := (h.recorded.begun r).1 hbegun
    rw [Phase.of_place_taken (h.cleaned.taken c x hc r hm)] at hacted
    cases hacted
  -- Since `r` has been started, so has `q`, and the cleanup does not wait for it any more.
  have hlast : ∀ as : List ℕ, x.waiting.toList ++ x.todo ≠ as ++ q :: b := by
    intro as has
    refine hrt ?_
    cases hw : x.waiting with
    | none =>
      rw [hw, Option.toList_none, nil_append] at has
      rw [has]
      exact mem_append_right _ (mem_cons_of_mem q hr)
    | some v =>
      rw [hw, Option.toList_some, singleton_append, cons_eq_append_iff] at has
      rcases has with ⟨-, has⟩ | ⟨as', -, has⟩
      · rw [← (List.cons.inj has).2]
        exact hr
      · rw [has]
        exact mem_append_right _ (mem_cons_of_mem q hr)
  rw [hab, append_assoc, append_eq_append_iff] at hbatch
  rcases hbatch with ⟨bs, hfr, hbs⟩ | ⟨as, -, has⟩
  · rcases cons_eq_append_iff.1 hbs with ⟨-, hbs⟩ | ⟨bs', rfl, -⟩
    · exact (hlast [] hbs).elim
    · exact hfront a q bs' hfr
  · exact (hlast as has).elim

/-- The resources of a plugin are undone. -/
structure Undone (s : Registry) : Prop where
  /-- The cleanup of each is called at most once, -/
  once : s.begun.Nodup
  /-- and when nothing is in progress any more it has been called and has come to its end,
      whatever the others raise, -/
  all : s.Quiet → ∀ r < s.size, r ∉ s.managed → s.begun.count r = 1 ∧ (s.phase r).over = true
  /-- for nothing waits for a cleanup that has begun already. -/
  noneLeft : s.complete = true → s.managed = []
  /-- A cleanup takes the newest first, -/
  newestFirst : ∀ c x, s.cleaner c = some x → x.batch.Sublist s.enlisted
  /-- and goes on when the thread of a resource is done, or after one of those so far has
      taken too long. -/
  inTurn : ∀ c x, s.cleaner c = some x → ∀ a q b, x.batch = a ++ q :: b →
    ∀ r ∈ b, r ∈ s.begun → s.Past q (a ++ [q])
  /-- The count is of those whose cleanup has not come to its end. -/
  counts : ∀ k, s.counts k = (s.live k).card

/-- In every state that is reached, however registrations, cleanups and threads interleave
    and whatever raises. -/
theorem cleanups_once (h : system.Reachable s) : Undone s := by
  have hs := sound_reachable h
  refine ⟨hs.recorded.nodup, fun hquiet r hr hm => ?_, hs.placed.complete, hs.cleaned.batch,
    fun c x hc a q b hab r hr hbegun => hs.inTurn hc hab hr hbegun, hs.counted⟩
  have hphase := hs.signalled hquiet hr hm
  refine ⟨count_eq_one_of_mem hs.recorded.nodup ?_, by rw [hphase]; rfl⟩
  rw [hs.recorded.begun, hphase]
  rfl

/-- A link and a destination are registered, and a handler that comes too late while the
    destination is undone, which raises. -/
def twoAndALateOne : List Event :=
  [.register (some .links), .enlist 0, .register (some .destinations), .enlist 1, .cleanUp,
    .startNext 0, .undo 1, .register (some .requestHandlers), .enlist 2, .startLate 2,
    .undone 1 true, .account 1, .report 1, .signal 1, .waited 0, .startNext 0, .undo 2, .undo 0,
    .undone 0 false, .account 0, .report 0, .signal 0, .waited 0, .undone 2 false, .account 2,
    .report 2, .signal 2, .leave 2]

theorem cleanups_once_run : ∃ s, system.Reachable s ∧ s.begun = [0, 2, 1] ∧ Undone s := by
  obtain ⟨s, hs, hbegun⟩ : ∃ s ∈ twoAndALateOne.foldlM Registry.next {}, s.begun = [0, 2, 1] := by
    decide
  have hreach : system.Reachable s := .foldlM (.init rfl) hs
  exact ⟨s, hreach, hbegun, cleanups_once hreach⟩

/-- A link that its plugin has torn down is still counted, and torn down once more. -/
theorem released_undone_again : ∃ s s', system.Reachable s ∧ 0 ∈ s.released ∧
    s.counts .links = 1 ∧ system.Leads (fun _ _ => True) s s' ∧ 0 ∈ s'.released ∧
    0 ∈ s'.begun := by
  obtain ⟨s, hs, hrel, hcount, s', hs', hbegun⟩ :
      ∃ s ∈ [.register (some .links), .enlist 0, .release 0].foldlM Registry.next {},
        0 ∈ s.released ∧ s.counts .links = 1 ∧
          ∃ s' ∈ [.cleanUp, .startNext 0, .undo 0].foldlM Registry.next s,
            0 ∈ s'.released ∧ 0 ∈ s'.begun := by
    decide
  exact ⟨s, s', .foldlM (.init rfl) hs, hrel, hcount,
    Transition.Leads.foldlM hs', hbegun⟩

end ReticulumPi.Plugin.Cleanup
