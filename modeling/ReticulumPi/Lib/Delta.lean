import ReticulumPi.Lib.Dict

/-!
# Updates of a dictionary

A copy of a dictionary that others keep is brought up to date by a *delta*: the
keys to drop and the entries to set. What a reader of the copy sees of a key is
its value, or `null` where the key is missing, so that two dictionaries *agree*
on a key when they show the same value there.

A delta that leads from one dictionary to another is meant for copies of the
first one. `agree_apply_iff` says what it makes of any copy: the keys that it
mentions are right afterwards, whatever the copy held, and on the others the
copy has to agree with the first dictionary already.
-/

variable {κ α : Type*} [DecidableEq κ]

namespace Dict

/-- The value that `d` shows for `k`. -/
def shows (null : α) (d : Dict κ α) (k : κ) : α := (d.get? k).getD null

theorem shows_eq_of_get? {null : α} {d d' : Dict κ α} {k : κ} (h : d.get? k = d'.get? k) :
    d.shows null k = d'.shows null k := by
  rw [shows, h]
  rfl

end Dict

/-- An update: the entries to set, after the keys `removed` are dropped. -/
structure Delta (κ α : Type*) where
  changed : Dict κ α
  removed : List κ

namespace Delta

variable {p : Delta κ α} {d before after held : Dict κ α} {null : α} {k : κ}

/-- The dictionary that the update leaves. -/
def apply (p : Delta κ α) (d : Dict κ α) : Dict κ α :=
  p.changed.entries.foldl (fun d e => d.set e.1 e.2) (p.removed.foldl Dict.erase d)

/-- Nothing is set and nothing dropped. -/
def IsEmpty (p : Delta κ α) : Prop := p.changed.entries = [] ∧ p.removed = []
deriving Decidable

/-- The update sets or drops the key. -/
def Mentions (p : Delta κ α) (k : κ) : Prop := k ∈ p.changed.keys ∨ k ∈ p.removed

instance : Decidable (p.Mentions k) := inferInstanceAs (Decidable (_ ∨ _))

theorem get?_apply :
    (p.apply d).get? k = (p.changed.get? k).or (if k ∈ p.removed then none else d.get? k) := by
  rw [apply, Dict.get?_foldl_entries (f := fun _ v => v), Dict.get?_foldl_erase, Option.map_id']

theorem IsEmpty.apply_eq (h : p.IsEmpty) : p.apply d = d := by
  rw [apply, h.1, h.2]
  rfl

/-- What the update does not mention stays. -/
theorem get?_apply_of_not_mentions (h : ¬ p.Mentions k) : (p.apply d).get? k = d.get? k := by
  have hk : p.changed.get? k = none := Option.eq_none_iff_forall_ne_some.2 fun v hv =>
    h (.inl (Dict.mem_keys.2 ⟨v, hv⟩))
  rw [get?_apply, hk, if_neg fun hr => h (.inr hr), Option.none_or]

/-- The update leads from `before` to `after` on the keys of `K`: it sets what it
    finds in `after`, drops only what is not there, and leaves out a key only
    when both show the same. -/
structure LeadsTo (null : α) (K : Set κ) (p : Delta κ α) (before after : Dict κ α) : Prop where
  changed : ∀ k v, p.changed.get? k = some v → after.get? k = some v
  removed : ∀ k ∈ p.removed, after.get? k = none
  same : ∀ k ∈ K, ¬ p.Mentions k → before.shows null k = after.shows null k

/-- A key that the update mentions is right afterwards in every copy. -/
theorem LeadsTo.get?_apply_of_mentions {K : Set κ} (h : p.LeadsTo null K before after)
    (hk : p.Mentions k) : (p.apply held).get? k = after.get? k := by
  rw [get?_apply]
  rcases hc : p.changed.get? k with _ | v
  · have hr : k ∈ p.removed := hk.resolve_left fun hm => by
      obtain ⟨v, hv⟩ := Dict.mem_keys.1 hm
      rw [hc] at hv
      cases hv
    rw [if_pos hr, h.removed k hr, Option.none_or]
  · rw [h.changed k v hc, Option.some_or]

/-- A copy is brought up to date exactly when it agrees with `before` on what
    the update leaves out. -/
theorem agree_apply_iff {K : Set κ} (h : p.LeadsTo null K before after) :
    (∀ k ∈ K, (p.apply held).shows null k = after.shows null k) ↔
      ∀ k ∈ K, ¬ p.Mentions k → held.shows null k = before.shows null k := by
  refine forall₂_congr fun k hK => ?_
  by_cases hk : p.Mentions k
  · exact iff_of_true (Dict.shows_eq_of_get? (h.get?_apply_of_mentions hk)) fun hn => absurd hk hn
  · rw [Dict.shows_eq_of_get? (get?_apply_of_not_mentions hk), h.same k hK hk]
    exact ⟨fun heq _ => heq, fun heq => heq hk⟩

end Delta
