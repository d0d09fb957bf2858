import Mathlib.Order.Basic
import Mathlib.Data.List.Basic

/-!
# Write-behind caches

A record that is changed in memory and written to a database later exists in
several copies: the cached one, the one waiting for the next batch, the one in a
batch being written, the one that a transaction has written, and the one that
is committed. `Layers` are the copies of one record, and the operations of the
cache and of the database move them. Two things are kept: that no copy knows
more than a later one does (`Ascending`), and that the cached record is what the
next writes will leave in the table (`InStep`).
-/

namespace WriteBehind

/-- The copies of one record, oldest first. -/
@[ext] structure Layers (α : Type*) where
  committed : Option α
  table : Option α
  batch : Option α
  pending : Option α
  cached : Option α

namespace Layers

variable {α β : Type*} [Preorder β] {know : α → β} {l : Layers α} {c c' : α}

/-- The cached record is changed, and waits for the next batch. -/
def update (l : Layers α) (c : α) : Layers α := { l with pending := some c, cached := some c }

/-- The cached record is dropped. -/
def evict (l : Layers α) : Layers α := { l with cached := none }

/-- What waits becomes the batch. -/
def take (l : Layers α) : Layers α := { l with batch := l.pending, pending := none }

/-- The batch is written and committed. -/
def write (l : Layers α) : Layers α :=
  { l with committed := l.batch.or l.table, table := l.batch.or l.table, batch := none }

/-- The batch is dropped, and the table left with `t`. -/
def fail (l : Layers α) (t : Option α) : Layers α := { l with table := t, batch := none }

/-- The table has `t`, which is committed. -/
def commit (l : Layers α) (t : Option α) : Layers α := { l with committed := t, table := t }

/-! ## Later copies know more -/

variable (know) in
/-- What the one copy knows the other one knows, if there are both. -/
def AtMost (o o' : Option α) : Prop := ∀ x ∈ o, ∀ y ∈ o', know x ≤ know y

variable (know) in
/-- Each copy knows what the older ones know. -/
def Ascending (l : Layers α) : Prop :=
  [l.committed, l.table, l.batch, l.pending, l.cached].Pairwise (AtMost know)

@[simp] theorem atMost_none_left {o : Option α} : AtMost know none o := fun _ h => nomatch h

@[simp] theorem atMost_none_right {o : Option α} : AtMost know o none := fun _ _ _ h => nomatch h

variable {o : Option α}

theorem atMost_refl : AtMost know o o := fun x hx y hy => by
  rw [Option.mem_unique hx hy]

theorem AtMost.or_left {o' b : Option α} (h : AtMost know o b) (h' : AtMost know o' b) :
    AtMost know (o.or o') b := by
  cases o with
  | none => exact h'
  | some x => exact h

theorem AtMost.or_right {o' b : Option α} (h : AtMost know b o) (h' : AtMost know b o') :
    AtMost know b (o.or o') := by
  cases o with
  | none => exact h'
  | some x => exact h

theorem AtMost.trans_some (h : AtMost know o (some c)) (hc : know c ≤ know c') :
    AtMost know o (some c') := fun x hx y hy => by
  cases hy
  exact (h x hx c rfl).trans hc

theorem atMost_of_map_eq {o' : Option α} (h : o.map know = o'.map know) :
    AtMost know o o' := fun x hx y hy => by
  rw [Option.mem_def.1 hx, Option.mem_def.1 hy] at h
  exact (Option.some.inj h).le

theorem ascending_iff :
    l.Ascending know ↔
      (AtMost know l.committed l.table ∧ AtMost know l.committed l.batch ∧
        AtMost know l.committed l.pending ∧ AtMost know l.committed l.cached) ∧
      (AtMost know l.table l.batch ∧ AtMost know l.table l.pending ∧
        AtMost know l.table l.cached) ∧
      (AtMost know l.batch l.pending ∧ AtMost know l.batch l.cached) ∧
      AtMost know l.pending l.cached := by
  simp [Ascending]

namespace Ascending

theorem evict (h : l.Ascending know) : l.evict.Ascending know := by
  rw [ascending_iff] at h ⊢
  simp [Layers.evict, h]

/-- A record that knows more than the cached one replaces it. -/
theorem update (h : l.Ascending know) (hb : l.batch = none) (hc : l.cached = some c)
    (hle : know c ≤ know c') : (l.update c').Ascending know := by
  rw [ascending_iff] at h ⊢
  obtain ⟨⟨ht, -, -, hcom⟩, ⟨-, -, htab⟩, -⟩ := h
  rw [hc] at hcom htab
  simp [Layers.update, ht, hb, hcom.trans_some hle, htab.trans_some hle, atMost_refl]

/-- A record is cached of which the database has no copy. -/
theorem insert (hb : l.batch = none) (hcom : l.committed = none) (ht : l.table = none) :
    (l.update c).Ascending know := by
  rw [ascending_iff]
  simp [Layers.update, hb, hcom, ht, atMost_refl]

theorem take (h : l.Ascending know) : l.take.Ascending know := by
  rw [ascending_iff] at h ⊢
  simp [Layers.take, h]

theorem write (h : l.Ascending know) (hp : l.pending = none) : l.write.Ascending know := by
  rw [ascending_iff] at h ⊢
  obtain ⟨-, ⟨-, -, ht⟩, ⟨-, hb⟩, -⟩ := h
  simp [Layers.write, hp, atMost_refl, hb.or_left ht]

variable {t : Option α}

/-- A batch that is not committed leaves its record in the table, or not, or
    the table is what was committed. -/
theorem fail (h : l.Ascending know) (hp : l.pending = none)
    (ht : t = l.table ∨ t = l.batch ∨ t = l.committed) : (l.fail t).Ascending know := by
  rw [ascending_iff] at h ⊢
  rcases ht with rfl | rfl | rfl <;> simp [Layers.fail, hp, h, atMost_refl]

/-- The table is committed, or the row deleted. -/
theorem commit (h : l.Ascending know) (ht : t = l.table ∨ t = none) :
    (l.commit t).Ascending know := by
  rw [ascending_iff] at h ⊢
  rcases ht with rfl | rfl <;> simp [Layers.commit, h, atMost_refl]

/-- The row is deleted, or all rows are as they were committed, without a commit. -/
theorem setTable (h : l.Ascending know) (ht : t = l.table ∨ t = none ∨ t = l.committed) :
    ({ l with table := t } : Layers α).Ascending know := by
  rw [ascending_iff] at h ⊢
  rcases ht with rfl | rfl | rfl <;> simp [h, atMost_refl]

/-- After a restart the cached record is that of the table, if there is one. -/
theorem reload {r c : Option α} (hrt : AtMost know r t) (hc : c = none ∨ c = t) :
    (⟨r, t, none, none, c⟩ : Layers α).Ascending know := by
  rw [ascending_iff]
  rcases hc with rfl | rfl <;> simp [hrt, atMost_refl]

end Ascending

/-! ## What holds of every copy -/

/-- Every copy has the property `p`. -/
def All (p : α → Prop) (l : Layers α) : Prop :=
  ∀ o ∈ [l.committed, l.table, l.batch, l.pending, l.cached], ∀ x ∈ o, p x

theorem all_iff {p : α → Prop} :
    l.All p ↔ (∀ x ∈ l.committed, p x) ∧ (∀ x ∈ l.table, p x) ∧ (∀ x ∈ l.batch, p x) ∧
      (∀ x ∈ l.pending, p x) ∧ ∀ x ∈ l.cached, p x := by
  simp [All]

namespace All

variable {p q : α → Prop}

theorem mono (h : l.All p) (hpq : ∀ x, p x → q x) : l.All q := fun o ho x hx =>
  hpq x (h o ho x hx)

theorem evict (h : l.All p) : l.evict.All p := by
  rw [all_iff] at h ⊢
  simp_all [Layers.evict]

theorem update (h : l.All p) (hc : p c) : (l.update c).All p := by
  rw [all_iff] at h ⊢
  simp_all [Layers.update]

theorem take (h : l.All p) : l.take.All p := by
  rw [all_iff] at h ⊢
  simp_all [Layers.take]

theorem write (h : l.All p) : l.write.All p := by
  rw [all_iff] at h ⊢
  obtain ⟨-, ht, hb, hpend, hc⟩ := h
  have hor : ∀ x ∈ l.batch.or l.table, p x := fun x hx =>
    (Option.or_eq_some_iff.1 hx).elim (hb x) fun h => ht x h.2
  exact ⟨hor, hor, nofun, hpend, hc⟩

theorem fail {t : Option α} (h : l.All p)
    (ht : t = l.table ∨ t = l.batch ∨ t = l.committed) : (l.fail t).All p := by
  rw [all_iff] at h ⊢
  rcases ht with rfl | rfl | rfl <;> simp_all [Layers.fail]

theorem commit {t : Option α} (h : l.All p) (ht : t = l.table ∨ t = none) :
    (l.commit t).All p := by
  rw [all_iff] at h ⊢
  rcases ht with rfl | rfl <;> simp_all [Layers.commit]

theorem setTable {t : Option α} (h : l.All p)
    (ht : t = l.table ∨ t = none ∨ t = l.committed) :
    ({ l with table := t } : Layers α).All p := by
  rw [all_iff] at h ⊢
  rcases ht with rfl | rfl | rfl <;> simp_all

end All

/-! ## The cached record will be in the table -/

/-- What the table will have after the next writes. -/
def latest (l : Layers α) : Option α := l.pending.or (l.batch.or l.table)

/-- The cached record is the latest one, unless it is about to be dropped and
    its row is deleted. -/
def InStep (expired : α → Prop) (l : Layers α) : Prop :=
  ∀ c ∈ l.cached, l.latest = some c ∨ (l.latest = none ∧ expired c)

namespace InStep

variable {expired : α → Prop}

theorem evict : l.evict.InStep expired := fun _ h => nomatch h

theorem update : (l.update c).InStep expired := fun _ h => .inl h

/-- After a restart the cached record is that of the table, if there is one. -/
theorem reload {r t c : Option α} (hc : c = none ∨ c = t) :
    (⟨r, t, none, none, c⟩ : Layers α).InStep expired := fun x hx => by
  rcases hc with rfl | rfl
  · cases hx
  · exact .inl hx

theorem take (h : l.InStep expired) (hb : l.batch = none) : l.take.InStep expired := by
  have hlatest : l.take.latest = l.latest := by simp [latest, Layers.take, hb]
  exact fun c hc => hlatest ▸ h c hc

theorem write (h : l.InStep expired) (hp : l.pending = none) : l.write.InStep expired := by
  have hlatest : l.write.latest = l.latest := by simp [latest, Layers.write, hp]
  exact fun c hc => hlatest ▸ h c hc

/-- The batch is in the table, so the cached record is, unless it is expired
    and was in no batch. -/
theorem committed_write (h : l.InStep expired) (hp : l.pending = none) (hc : c ∈ l.cached)
    (hb : expired c → l.batch ≠ none) : l.write.committed = some c := by
  have hlatest : l.write.committed = l.latest := by simp [latest, Layers.write, hp]
  rw [hlatest]
  rcases h c hc with h | ⟨hnone, he⟩
  · exact h
  · rw [latest, Option.or_eq_none_iff, Option.or_eq_none_iff] at hnone
    exact absurd hnone.2.1 (hb he)

/-- A deleted row leaves only records that are about to be dropped. -/
theorem commit {t : Option α} (h : l.InStep fun _ => False)
    (ht : t = l.table ∨ (t = none ∧ ∀ c ∈ l.table, expired c)) :
    (l.commit t).InStep expired := fun c hc => by
  have hc' : l.latest = some c := (h c hc).resolve_right nofun
  rcases ht with rfl | ⟨rfl, he⟩
  · exact .inl hc'
  · rw [latest] at hc'
    simp only [latest, Layers.commit]
    rcases hp : l.pending with _ | p
    · rcases hb : l.batch with _ | b
      · rw [hp, hb] at hc'
        exact .inr ⟨rfl, he c hc'⟩
      · rw [hp, hb] at hc'
        exact .inl hc'
    · rw [hp] at hc'
      exact .inl hc'

end InStep

end Layers

end WriteBehind
