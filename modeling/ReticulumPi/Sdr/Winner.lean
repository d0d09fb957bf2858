import ReticulumPi.Sdr.Dongle

/-!
# Who is chosen

What `_pick_winner` answers: the first critical slot that is not suspended;
without one, the first scheduled slot with a window that contains the time;
without one, a background slot, which the scan of the queue finds whenever one
of the queue is not suspended. Apart from the queue and its position the dongle
is left as it is.
-/

namespace ReticulumPi.Sdr

open List

/-- The scheduled slot has a window that contains `now`, and is not suspended. -/
def SignalSlot.Due (slot : SignalSlot) (now : ℚ) : Prop :=
  slot.suspended = false ∧ slot.priority = .scheduled ∧ ∃ w ∈ slot.windows, w.Contains now

/-- The slot is critical, and not suspended. -/
def SignalSlot.urgent (slot : SignalSlot) : Bool :=
  !slot.suspended && slot.priority = .critical

theorem SignalSlot.urgent_iff {slot : SignalSlot} :
    slot.urgent = true ↔ slot.suspended = false ∧ slot.priority = .critical := by
  simp [urgent]

namespace Dongle

variable {d d' d'' : Dongle} {now : ℚ} {c : String} {x : SignalSlot}
  {l : List (String × SignalSlot)} {best : Option String × ℕ}

/-- The first critical slot that is not suspended. -/
def firstCritical (d : Dongle) : Option (String × SignalSlot) :=
  d.slots.entries.find? (·.2.urgent)

/-! ## Critical and scheduled slots -/

variable {e : String × SignalSlot}

theorem consider_critical (h : e.2.urgent = true) :
    consider now best e = if 0 < best.2 then (some e.1, 0) else best := by
  obtain ⟨hs, hp⟩ := SignalSlot.urgent_iff.1 h
  have hc := e.2.critical_continuous hp
  simp [consider, hs, hp, hc, Priority.rank]

theorem consider_due (h : e.2.Due now) :
    consider now best e = if 1 < best.2 then (some e.1, 1) else best := by
  obtain ⟨hs, hp, w, hw, hnow⟩ := h
  have hany : ∃ w ∈ e.2.windows, w.Contains now := ⟨w, hw, hnow⟩
  simp [consider, hs, hp, Priority.rank, hany]

/-- A slot that is neither critical nor due is passed over. -/
theorem consider_other
    (hc : ¬ e.2.urgent = true) (hd : ¬ e.2.Due now) : consider now best e = best := by
  simp only [consider]
  split_ifs with hs hcrit hlt hsched hwin
  · rfl
  · exact absurd (SignalSlot.urgent_iff.2 ⟨by simpa using hs, hcrit.1⟩) hc
  · rfl
  · obtain ⟨w, hw, hnow⟩ := List.any_eq_true.1 hwin.1
    exact absurd ⟨by simpa using hs, hsched, w, hw, of_decide_eq_true hnow⟩ hd
  · rfl
  · rfl

/-- Nothing beats a critical slot. -/
theorem foldl_consider_zero (h : best.2 = 0) : l.foldl (consider now) best = best := by
  induction l with
  | nil => rfl
  | cons e l ih =>
    have hstep : consider now best e = best := by
      by_cases hc : e.2.urgent = true
      · rw [consider_critical hc, if_neg (by omega)]
      · by_cases hd : e.2.Due now
        · rw [consider_due hd, if_neg (by omega)]
        · exact consider_other hc hd
    rw [foldl_cons, hstep, ih]

theorem foldl_consider_critical
    (hf : l.find? (·.2.urgent) = some (c, x)) (hb : 0 < best.2) : l.foldl (consider now) best = (some c, 0) := by
  induction l generalizing best with
  | nil => cases hf
  | cons e l ih =>
    rw [foldl_cons]
    rw [find?_cons] at hf
    split at hf
    · rename_i hc
      cases hf
      rw [consider_critical hc, if_pos hb]
      exact foldl_consider_zero rfl
    · rename_i hc
      refine ih hf ?_
      by_cases hd : e.2.Due now
      · rw [consider_due hd]
        split_ifs
        · exact Nat.one_pos
        · exact hb
      · rwa [consider_other (by simp [hc]) hd]

/-- Without a critical slot, only a due one can replace what is best so far. -/
theorem foldl_consider_due (best : Option String × ℕ)
    (hf : l.find? (·.2.urgent) = none) :
    (l.foldl (consider now) best = best ∧ (1 < best.2 → ∀ e ∈ l, ¬ e.2.Due now)) ∨
      ∃ e ∈ l, e.2.Due now ∧ l.foldl (consider now) best = (some e.1, 1) := by
  induction l generalizing best with
  | nil => exact .inl ⟨rfl, fun _ e he => absurd he not_mem_nil⟩
  | cons e l ih =>
    rw [find?_cons] at hf
    split at hf
    · cases hf
    rename_i hc
    rw [foldl_cons]
    by_cases hd : e.2.Due now
    · rw [consider_due hd]
      by_cases hb : 1 < best.2
      · rw [if_pos hb]
        rcases ih (some e.1, 1) hf with ⟨heq, -⟩ | ⟨e', he', hd', heq⟩
        · exact .inr ⟨e, mem_cons_self, hd, heq⟩
        · exact .inr ⟨e', mem_cons_of_mem _ he', hd', heq⟩
      · rw [if_neg hb]
        rcases ih best hf with ⟨heq, -⟩ | ⟨e', he', hd', heq⟩
        · exact .inl ⟨heq, fun h => absurd h hb⟩
        · exact .inr ⟨e', mem_cons_of_mem _ he', hd', heq⟩
    · rw [consider_other (by simp [hc]) hd]
      rcases ih best hf with ⟨heq, hno⟩ | ⟨e', he', hd', heq⟩
      · exact .inl ⟨heq, fun h => forall_mem_cons.2 ⟨hd, hno h⟩⟩
      · exact .inr ⟨e', mem_cons_of_mem _ he', hd', heq⟩

theorem pickDue_critical (h : d.firstCritical = some (c, x)) : d.pickDue now = some c := by
  rw [pickDue, foldl_consider_critical h (by simp)]

/-- Without a critical slot, the one chosen is scheduled and due, if there is such a slot. -/
theorem pickDue_scheduled (now : ℚ) (h : d.firstCritical = none) :
    (d.pickDue now = none ∧ ∀ e ∈ d.slots.entries, ¬ e.2.Due now) ∨
      ∃ e ∈ d.slots.entries, e.2.Due now ∧ d.pickDue now = some e.1 := by
  rw [pickDue]
  rcases foldl_consider_due (none, 999) h with ⟨heq, hno⟩ | ⟨e, he, hd, heq⟩
  · exact .inl ⟨by rw [heq], hno (by simp)⟩
  · exact .inr ⟨e, he, hd, by rw [heq]⟩

/-! ## Expiry -/

theorem get?_expireWindows : (d.expireWindows now).slots.get? c =
    (d.slots.get? c).map (·.expireWindows now) := Dict.get?_map

theorem firstCritical_expireWindows : (d.expireWindows now).firstCritical =
    d.firstCritical.map fun e => (e.1, e.2.expireWindows now) := by
  simp only [firstCritical, expireWindows, Dict.map, find?_map]
  rfl

/-- Once the windows that ended are gone, a slot is due in the windows that have
    begun and not ended. -/
theorem due_expireWindows : (x.expireWindows now).Due now ↔ x.suspended = false ∧
    x.priority = .scheduled ∧ ∃ w ∈ x.windows, w.startTs ≤ now ∧ now < w.endTs := by
  simp only [SignalSlot.Due, SignalSlot.expireWindows, TimeWindow.Contains, mem_filter,
    decide_eq_true_eq]
  refine and_congr_right fun _ => and_congr_right fun _ => exists_congr fun w => ?_
  constructor
  · rintro ⟨⟨hw, hlt⟩, hle, -⟩
    exact ⟨hw, hle, hlt⟩
  · rintro ⟨hw, hle, hlt⟩
    exact ⟨⟨hw, hlt⟩, hle, hlt.le⟩

/-! ## Background slots -/

/-- The change from `d` to `d'` is one of the queue and its position. -/
structure QueueChange (d d' : Dongle) : Prop where
  oid : d'.oid = d.oid
  canonicalId : d'.canonicalId = d.canonicalId
  holder : d'.currentHolder = d.currentHolder
  lockedBy : d'.lockedBy = d.lockedBy
  relockAfter : d'.relockAfter = d.relockAfter
  slots : d'.slots = d.slots
  generation : d'.generation = d.generation
  queue : ∀ c ∈ d'.bgOrder, c ∈ d.bgOrder

theorem QueueChange.refl (d : Dongle) : d.QueueChange d :=
  ⟨rfl, rfl, rfl, rfl, rfl, rfl, rfl, fun _ h => h⟩

theorem QueueChange.trans (h : d.QueueChange d') (h' : d'.QueueChange d'') : d.QueueChange d'' where
  oid := h'.oid.trans h.oid
  canonicalId := h'.canonicalId.trans h.canonicalId
  holder := h'.holder.trans h.holder
  lockedBy := h'.lockedBy.trans h.lockedBy
  relockAfter := h'.relockAfter.trans h.relockAfter
  slots := h'.slots.trans h.slots
  generation := h'.generation.trans h.generation
  queue c hc := h.queue c (h'.queue c hc)

theorem scanBackground_change (n : ℕ) : d.QueueChange (scanBackground n d).1 := by
  induction n generalizing d with
  | zero => exact .refl d
  | succ n ih =>
    simp only [scanBackground]
    split
    · exact .refl d
    · split
      · split_ifs
        · have h : d.QueueChange { d with bgIndex := d.bgIndex + 1 } :=
            ⟨rfl, rfl, rfl, rfl, rfl, rfl, rfl, fun _ h => h⟩
          exact h.trans ih
        · exact .refl d
      · have h : d.QueueChange (d.popBackground (d.bgIndex % d.bgOrder.length)) :=
          ⟨rfl, rfl, rfl, rfl, rfl, rfl, rfl, fun _ h => (eraseIdx_sublist _ _).mem h⟩
        exact h.trans ih

theorem pickBackground_change (now : ℚ) : d.QueueChange (d.pickBackground now).1 := by
  rw [pickBackground]
  split
  · exact .refl d
  · refine QueueChange.trans ?_ (scanBackground_change _)
    split_ifs
    · exact ⟨rfl, rfl, rfl, rfl, rfl, rfl, rfl, fun _ h => h⟩
    · exact .refl d

theorem pickWinner_change (now : Clock) : d.QueueChange (d.pickWinner now).1 := by
  rw [pickWinner]
  split
  · exact .refl d
  · exact pickBackground_change _

/-- The queued caller's slot is not suspended. -/
def Eligible (d : Dongle) (c : String) : Prop :=
  c ∈ d.bgOrder ∧ ∃ x, d.slots.get? c = some x ∧ x.suspended = false

/-- The scan finds an eligible caller, or has seen that none of its positions has one. -/
theorem scanBackground_cases (n : ℕ) :
    (∃ c, (scanBackground n d).2 = some c ∧ d.Eligible c) ∨
      ((scanBackground n d).2 = none ∧ ∀ j < n, ∀ c,
        d.bgOrder[(d.bgIndex + j) % d.bgOrder.length]? = some c → ¬ d.Eligible c) := by
  induction n generalizing d with
  | zero => exact .inr ⟨rfl, fun j hj => absurd hj (Nat.not_lt_zero j)⟩
  | succ n ih =>
    simp only [scanBackground]
    rcases hc : d.bgOrder[d.bgIndex % d.bgOrder.length]? with _ | candidate
    · -- Only an empty queue has no element at a position within its length.
      have hnil : d.bgOrder = [] := by
        by_contra hne
        have hlt := Nat.mod_lt d.bgIndex (length_pos_iff.2 hne)
        rw [getElem?_eq_getElem hlt] at hc
        cases hc
      exact .inr ⟨rfl, fun j _ c hj => by simp [hnil] at hj⟩
    have hmem : candidate ∈ d.bgOrder := mem_of_getElem? hc
    obtain ⟨slot, hslot⟩ := Dict.mem_keys.1 (d.bg_slots candidate hmem)
    dsimp only
    rw [hslot]
    dsimp only
    by_cases hs : slot.suspended = true
    · rw [if_pos hs]
      rcases ih (d := { d with bgIndex := d.bgIndex + 1 }) with ⟨c, heq, he⟩ | ⟨heq, hno⟩
      · exact .inl ⟨c, heq, he⟩
      · refine .inr ⟨heq, fun j hj c hcj => ?_⟩
        rcases j with _ | j
        · rw [Nat.add_zero, hc] at hcj
          cases hcj
          rintro ⟨-, x, hx, hxs⟩
          rw [hslot] at hx
          cases hx
          rw [hs] at hxs
          cases hxs
        · refine hno j (Nat.lt_of_succ_lt_succ hj) c ?_
          rwa [Nat.add_assoc, Nat.add_comm 1 j]
    · rw [if_neg hs]
      exact .inl ⟨candidate, rfl, hmem, slot, hslot, by simpa using hs⟩

/-- A full round of the queue misses no position. -/
theorem scanBackground_none (h : (scanBackground d.bgOrder.length d).2 = none) :
    ¬ d.Eligible c := by
  rcases scanBackground_cases (d := d) d.bgOrder.length with ⟨c', heq, -⟩ | ⟨-, hno⟩
  · rw [h] at heq
    cases heq
  intro he
  obtain ⟨i, hi, hget⟩ := mem_iff_getElem.1 he.1
  have hpos : 0 < d.bgOrder.length := by omega
  have hlt := Nat.mod_lt d.bgIndex hpos
  -- Position `i` is reached after going on to the end and round to it.
  refine hno ((i + d.bgOrder.length - d.bgIndex % d.bgOrder.length) % d.bgOrder.length)
    (Nat.mod_lt _ hpos) c ?_ he
  have hidx : (d.bgIndex + (i + d.bgOrder.length - d.bgIndex % d.bgOrder.length) %
      d.bgOrder.length) % d.bgOrder.length = i := by
    rw [Nat.add_mod_mod, ← Nat.mod_add_mod,
      show d.bgIndex % d.bgOrder.length +
        (i + d.bgOrder.length - d.bgIndex % d.bgOrder.length) = i + d.bgOrder.length by omega,
      Nat.add_mod_right, Nat.mod_eq_of_lt hi]
  rw [hidx, getElem?_eq_getElem hi, hget]

theorem inSlice_eq_some (h : d.inSlice now = some c) : d.currentHolder = some c ∧ c ∈ d.bgOrder := by
  rw [inSlice] at h
  split at h
  · rename_i holder hh
    split_ifs at h with hin
    cases h
    exact ⟨hh, hin.1⟩
  · cases h

/-- The background slot chosen is the holder, for the rest of its slice, or eligible. -/
theorem pickBackground_some (h : (d.pickBackground now).2 = some c) :
    (d.currentHolder = some c ∧ c ∈ d.bgOrder) ∨ d.Eligible c := by
  rw [pickBackground] at h
  split at h
  · rename_i holder hin
    cases h
    exact .inl (inSlice_eq_some hin)
  · right
    set d₁ := if d.holderInBackground then { d with bgIndex := d.bgIndex + 1 } else d with hd₁
    have hsame : d₁.Eligible c ↔ d.Eligible c := by
      rw [hd₁]
      split_ifs <;> rfl
    rcases scanBackground_cases (d := d₁) d.bgOrder.length with ⟨c', heq, he⟩ | ⟨heq, -⟩
    · rw [heq] at h
      cases h
      exact hsame.1 he
    · rw [heq] at h
      cases h

/-- None is chosen only when no caller of the queue is eligible. -/
theorem pickBackground_none (h : (d.pickBackground now).2 = none) : ¬ d.Eligible c := by
  rw [pickBackground] at h
  split at h
  · cases h
  · by_cases hin : d.holderInBackground
    · rw [if_pos hin] at h
      exact scanBackground_none (d := { d with bgIndex := d.bgIndex + 1 }) h
    · rw [if_neg hin] at h
      exact scanBackground_none h

/-! ## The winner -/

/-- No slot is due at `now`: none is critical, none has a window that has begun
    and not ended, and none that waits in the background queue is eligible. -/
structure NothingDue (d : Dongle) (now : ℚ) : Prop where
  critical : d.firstCritical = none
  scheduled : ∀ c x, d.slots.get? c = some x → x.suspended = false → x.priority = .scheduled →
    ∀ w ∈ x.windows, ¬ (w.startTs ≤ now ∧ now < w.endTs)
  background : ∀ c, ¬ d.Eligible c

theorem entry_expireWindows : e ∈ (d.expireWindows now).slots.entries ↔
      ∃ x, d.slots.get? e.1 = some x ∧ x.expireWindows now = e.2 := by
  rw [← Dict.get?_eq_some_iff (k := e.1) (v := e.2), get?_expireWindows, Option.map_eq_some_iff]

theorem eligible_expireWindows : (d.expireWindows now).Eligible c ↔ d.Eligible c := by
  simp only [Eligible, get?_expireWindows, Option.map_eq_some_iff]
  refine and_congr_right fun _ => ⟨?_, ?_⟩
  · rintro ⟨_, ⟨x, hx, rfl⟩, hs⟩
    exact ⟨x, hx, hs⟩
  · rintro ⟨x, hx, hs⟩
    exact ⟨_, ⟨x, hx, rfl⟩, hs⟩

/-- The winner after expiry. -/
def winner (d : Dongle) (now : Clock) : Option String :=
  ((d.expireWindows now.wall).pickWinner now).2

theorem winner_critical {now : Clock} (h : d.firstCritical = some (c, x)) :
    d.winner now = some c := by
  have hfirst : (d.expireWindows now.wall).firstCritical = some (c, x.expireWindows now.wall) := by
    rw [firstCritical_expireWindows, h]
    rfl
  rw [winner, pickWinner, pickDue_critical hfirst]

theorem winner_nothingDue {now : Clock} (h : d.NothingDue now.wall)
    (hh : ∀ c, d.currentHolder = some c → c ∉ d.bgOrder) : d.winner now = none := by
  have hfirst : (d.expireWindows now.wall).firstCritical = none := by
    rw [firstCritical_expireWindows, h.critical]
    rfl
  rw [winner, pickWinner]
  rcases pickDue_scheduled now.wall hfirst with ⟨heq, -⟩ | ⟨e, he, hdue, -⟩
  · rw [heq]
    by_contra hne
    obtain ⟨c, hc⟩ := Option.ne_none_iff_exists'.1 hne
    rcases pickBackground_some hc with ⟨hholder, hin⟩ | hel
    · exact hh c hholder hin
    · exact h.background c (eligible_expireWindows.1 hel)
  · obtain ⟨x, hx, hxe⟩ := entry_expireWindows.1 he
    rw [← hxe, due_expireWindows] at hdue
    obtain ⟨hs, hp, w, hw, hnow⟩ := hdue
    exact absurd hnow (h.scheduled e.1 x hx hs hp w hw)

/-- Without a critical slot, a winner is the holder or another slot that is not critical. -/
theorem winner_other {now : Clock} (hfirst : d.firstCritical = none)
    (h : ¬ d.NothingDue now.wall) : ∃ c, d.winner now = some c ∧
      (d.currentHolder = some c ∨ ∃ x, d.slots.get? c = some x ∧ x.priority ≠ .critical) := by
  have hurgent : ∀ c x, d.slots.get? c = some x → x.suspended = false → x.priority ≠ .critical :=
    fun c x hx hs hp => find?_eq_none.1 hfirst (c, x) (Dict.get?_eq_some_iff.1 hx)
      (SignalSlot.urgent_iff.2 ⟨hs, hp⟩)
  have hfirst' : (d.expireWindows now.wall).firstCritical = none := by
    rw [firstCritical_expireWindows, hfirst]
    rfl
  rw [winner, pickWinner]
  rcases pickDue_scheduled now.wall hfirst' with ⟨heq, hno⟩ | ⟨e, he, hdue, heq⟩
  · rw [heq]
    dsimp only
    rcases hbg : ((d.expireWindows now.wall).pickBackground now.mono).2 with _ | c
    · refine absurd ⟨hfirst, fun c x hx hs hp w hw hnow => ?_, fun c hc => ?_⟩ h
      · exact hno (c, x.expireWindows now.wall) (entry_expireWindows.2 ⟨x, hx, rfl⟩)
          (due_expireWindows.2 ⟨hs, hp, w, hw, hnow⟩)
      · exact pickBackground_none hbg (eligible_expireWindows.2 hc)
    · refine ⟨c, rfl, ?_⟩
      rcases pickBackground_some hbg with ⟨hh, -⟩ | hel
      · exact .inl hh
      · obtain ⟨-, x, hx, hs⟩ := eligible_expireWindows.1 hel
        exact .inr ⟨x, hx, hurgent c x hx hs⟩
  · obtain ⟨x, hx, hxe⟩ := entry_expireWindows.1 he
    rw [← hxe, due_expireWindows] at hdue
    rw [heq]
    exact ⟨e.1, rfl, .inr ⟨x, hx, hurgent e.1 x hx hdue.1⟩⟩

end Dongle

end ReticulumPi.Sdr
