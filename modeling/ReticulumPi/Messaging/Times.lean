import ReticulumPi.Lib.Dict
import ReticulumPi.Lib.Double
import ReticulumPi.Lib.Transition

/-!
# The times of stored messages

The wall clock may jump; a message is not stored with a time before the last
one, but a millisecond after it. The last time is remembered, and read from the
database when the store starts.

Times are doubles (`Double`), and the millisecond is added as doubles are. So
what is stored below `2 ^ 44` seconds is ordered by its times as by its ids
(`times_increase`), and from there on a millisecond is less than the time can
tell (`times_stand`).

A run is a sequence of calls of `store`, of which the insertion may fail,
deletions of any rows, and restarts, before which the last rows may be lost.
-/

namespace ReticulumPi.Messaging.Times

/-- The table `messages` with the times of its rows, and the store. -/
structure State where
  rows : Dict ℕ ℕ := ∅
  /-- The next id of `AUTOINCREMENT`. -/
  nextId : ℕ := 1
  /-- `_last_ts` -/
  lastTs : ℕ := 0

/-- The double `0.001`. -/
def millisecond : ℕ := 1152921504606847 * 2 ^ 1014

/-- So many seconds. -/
def seconds (n : ℕ) : ℕ := n * 2 ^ 1074

inductive Event where
  | store (now : ℤ) (inserted : Bool)
  | delete (gone : ℕ → Bool)
  /-- The rows from that id on have not reached the disk. -/
  | restart (lost : ℕ)

/-- The time with which `store` stores a message. -/
def State.timestamp (s : State) (now : ℤ) : ℕ :=
  if now ≤ s.lastTs then Double.round (s.lastTs + millisecond) else now.toNat

/-- `__init__`, on the rows of the database. -/
def start (rows : Dict ℕ ℕ) (nextId : ℕ) : State where
  rows := rows
  nextId := nextId
  lastTs := rows.values.max?.getD 0

def State.next (s : State) : Event → State
  | .store now inserted =>
    if inserted then
      { rows := s.rows.set s.nextId (s.timestamp now)
        nextId := s.nextId + 1
        lastTs := s.timestamp now }
    else { s with lastTs := s.timestamp now }
  | .delete gone => { s with rows := s.rows.select fun id _ => !gone id }
  | .restart lost => start (s.rows.select fun id _ => id < lost) (min s.nextId lost)

def system : Transition State Event := .ofNext (· = {}) fun s e => some (s.next e)

/-! ## One step -/

variable {s : State} {id t : ℕ}

theorem le_lastTs_start {rows : Dict ℕ ℕ} {nextId : ℕ} (h : rows.get? id = some t) :
    t ≤ (start rows nextId).lastTs := by
  have hmem : t ∈ rows.values := Dict.mem_values.2 ⟨id, h⟩
  rw [start]
  cases hmax : rows.values.max? with
  | none => exact absurd (List.max?_eq_none_iff.1 hmax ▸ hmem) List.not_mem_nil
  | some m => exact (List.max?_eq_some_iff.1 hmax).2 t hmem

/-- A new time is later than what was stored below `2 ^ 44` seconds. -/
theorem lt_timestamp (now : ℤ) (ht : t < seconds (2 ^ 44)) (hle : t ≤ s.lastTs) :
    t < s.timestamp now := by
  have hpow : seconds (2 ^ 44) = 2 ^ (53 + 1065) := by decide +kernel
  rw [State.timestamp]
  split_ifs with hnow
  · rcases Nat.lt_or_ge s.lastTs (2 ^ (53 + 1065)) with hlast | hlast
    · exact Nat.lt_of_le_of_lt hle (Double.lt_round_add hlast (by decide +kernel))
    · exact Nat.lt_of_lt_of_le (hpow ▸ ht) (Double.two_pow_le_round (Nat.le_add_right_of_le hlast))
  · omega

/-- The rows that are stored before that time are in order, and it comes after them. -/
structure Ordered (s : State) : Prop where
  below : ∀ {id t}, s.rows.get? id = some t → id < s.nextId
  past : ∀ {id t}, s.rows.get? id = some t → t < seconds (2 ^ 44) → t ≤ s.lastTs
  increasing : ∀ {id id' t t'}, s.rows.get? id = some t → s.rows.get? id' = some t' → id < id' →
    t < seconds (2 ^ 44) → t < t'

/-- Some of the rows are left, and the store may have started again. -/
theorem Ordered.select {s' : State} {p : ℕ → Bool} (h : Ordered s)
    (hrows : s'.rows = s.rows.select fun id _ => p id)
    (hbelow : ∀ id < s.nextId, p id = true → id < s'.nextId)
    (hpast : s'.lastTs = s.lastTs ∨ s' = start s'.rows s'.nextId) : Ordered s' := by
  have hold : ∀ {id t}, s'.rows.get? id = some t → s.rows.get? id = some t ∧ p id = true := by
    intro id t hget
    rw [hrows, Dict.get?_select] at hget
    exact Option.filter_eq_some_iff.1 hget
  refine ⟨fun hget => hbelow _ (h.below (hold hget).1) (hold hget).2, fun hget ht => ?_,
    fun hget hget' => h.increasing (hold hget).1 (hold hget').1⟩
  rcases hpast with heq | heq
  · exact heq ▸ h.past (hold hget).1 ht
  · exact heq ▸ le_lastTs_start hget

theorem Ordered.next (h : Ordered s) (e : Event) : Ordered (s.next e) := by
  cases e with
  | store now inserted =>
    have hpast : ∀ {id t}, s.rows.get? id = some t → t < seconds (2 ^ 44) → t < s.timestamp now :=
      fun hget ht => lt_timestamp now ht (h.past hget ht)
    cases inserted with
    | false => exact ⟨h.below, fun hget ht => (hpast hget ht).le, h.increasing⟩
    | true =>
      have hget : ∀ {id t}, (s.rows.set s.nextId (s.timestamp now)).get? id = some t →
          id = s.nextId ∧ t = s.timestamp now ∨ id < s.nextId ∧ s.rows.get? id = some t := by
        intro id t hget
        rw [Dict.get?_set] at hget
        split_ifs at hget with hid
        · exact .inl ⟨hid, (Option.some.inj hget).symm⟩
        · exact .inr ⟨h.below hget, hget⟩
      refine ⟨fun hid => ?_, fun hid ht => ?_, fun hid hid' hlt ht => ?_⟩
      · rcases hget hid with ⟨rfl, -⟩ | ⟨hlt, -⟩
        · exact Nat.lt_succ_self _
        · exact Nat.lt_succ_of_lt hlt
      · rcases hget hid with ⟨-, rfl⟩ | ⟨-, hold⟩
        · exact le_rfl
        · exact (hpast hold ht).le
      · -- The new row is the last one.
        rcases hget hid with ⟨rfl, -⟩ | ⟨-, hold⟩
        · rcases hget hid' with ⟨rfl, -⟩ | ⟨hlt', -⟩
          · exact absurd hlt (lt_irrefl _)
          · exact absurd hlt (Nat.lt_asymm hlt')
        · rcases hget hid' with ⟨-, rfl⟩ | ⟨-, hold'⟩
          · exact hpast hold ht
          · exact h.increasing hold hold' hlt ht
  | delete gone => exact h.select (p := fun id => !gone id) rfl (fun _ hlt _ => hlt) (.inl rfl)
  | restart lost =>
    exact h.select (p := fun id => id < lost) rfl
      (fun _ hlt hp => lt_min hlt (of_decide_eq_true hp)) (.inr rfl)

/-! ## Runs -/

theorem ordered_of_reachable (h : system.Reachable s) : Ordered s := by
  refine Transition.Reach.induction (I := Ordered) ?_ ?_ h
  · rintro _ rfl
    exact ⟨fun hget => (by cases hget), fun hget => (by cases hget), fun hget => (by cases hget)⟩
  · rintro s e s' hs - hstep
    cases hstep
    exact hs.next e

end ReticulumPi.Messaging.Times
