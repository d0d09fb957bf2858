import ReticulumPi.Messaging.Delivery

/-!
# Final statuses

What is stored of a message when it has come to its end should stay. The writes
of the queue and of the sender come while the message has no final status, and
those of the sweep spare it; but a report, and the promotion of a broadcast, are
written over whatever is stored (`Fits` says when they do no harm), and so is a
receipt for a message that is still in the queue.

No two threads of an LXMF or MeshCore adapter have a report to write: whoever
takes the entry has the only one (`tickets`).
-/

namespace ReticulumPi.Messaging.Delivery

open List

variable {m : Outgoing} {s s' : Life} {st old : Status}

/-- The stored status may be replaced so: a final one by none of a message under way and by no
    failure, `read` by nothing, and `delivered` by `read` only. -/
def Keeps (old new : Status) : Prop :=
  (old.IsTerminal → new = old ∨
    new ∉ [Status.queued, .sent, .timeout, .expired, .failed, .deliveryFailed]) ∧
  (old = .read → new = .read) ∧ (old = .delivered → new = .delivered ∨ new = .read)
deriving Decidable

/-- A report is not written over `read`, over `delivered` only if it says the same, and a failure
    over no other final status. -/
def Fits (st old : Status) : Prop :=
  old ≠ .read ∧ (old = .delivered → st = .delivered) ∧
    (old.IsTerminal → st = .deliveryFailed → old = .deliveryFailed)
deriving Decidable

/-- The message is stored, and waits to be sent. -/
def Carrier.unsent : Carrier → Bool
  | .pushing | .queued | .drained | .retrying | .closing _ => true
  | _ => false

/-- It has not been stored. -/
def Carrier.unstored : Carrier → Bool
  | .asking | .sending | .finalizing _ | .storing => true
  | _ => false

/-- The step is none of those that write where they should not. -/
def Life.Orderly (s : Life) : Event → Prop
  | .write .timeout => True
  | .write .read => s.carrier.unsent = false
  | .write st => ∀ old ∈ s.row, Fits st old
  | .go => s.carrier = .promoting → ∀ old ∈ s.row, Fits .broadcastSent old
  | _ => True

instance (s : Life) (e : Event) : Decidable (s.Orderly e) := by
  unfold Life.Orderly
  split <;> infer_instance

/-! ## The invariant -/

/-- The thread is about to write what came out of the entry. -/
def Thread.isTicket : Thread → Bool
  | .writing st => st ≠ .read
  | _ => false

/-- The entry, and the threads that have taken it. -/
def Life.tickets (s : Life) : ℕ := s.threads.countP Thread.isTicket + s.pending.toNat

/-- The adapter does not know of the message: nothing of it has been registered. -/
def Carrier.early (kind : Kind) : Carrier → Bool
  | .binding _ _ => true
  | .tracking _ _ => kind ≠ .meshtastic
  | carrier => carrier.unsent || carrier.unstored

variable (m) in
structure Life.Sound (s : Life) : Prop where
  unstored : s.carrier.unstored = true → s.row = none
  unsent : s.carrier.unsent = true → s.row = some .queued
  early : s.carrier.early m.kind = true →
    s.tickets = 0 ∧ (m.kind = .meshtastic → s.holderId = false)
  tickets : m.kind ≠ .meshtastic → s.tickets ≤ 1
  propagated : s.row = some .propagated →
    m.kind = .lxmf ∧ s.tickets = 0 ∧ s.carrier.early m.kind = false
  waiting : ∀ st, .waiting st ∈ s.threads → m.kind.reports st = true
  popping : ∀ st, .popping st ∈ s.threads →
    m.kind.reports st = true ∧ (m.kind = .meshtastic → s.holderId = true)
  writing : ∀ st, .writing st ∈ s.threads → st = .read ∨ st = .timeout ∨ m.kind.reports st = true

/-! ## The threads of the reports -/

namespace Life

variable {t : Thread}

theorem countP_cons_ticket (t : Thread) (l : List Thread) :
    (t :: l).countP Thread.isTicket = l.countP Thread.isTicket + t.isTicket.toNat := by
  rw [countP_cons]
  cases t.isTicket <;> rfl

theorem tickets_finish (h : s.finish t = some s') :
    s'.tickets + t.isTicket.toNat = s.tickets := by
  rw [finish] at h
  split_ifs at h with ht
  cases h
  have hcount := (perm_cons_erase ht).countP_eq Thread.isTicket
  rw [countP_cons_ticket] at hcount
  rw [tickets, tickets, hcount]
  exact Nat.add_right_comm _ _ _

/-- A thread ends. -/
structure Finished (t : Thread) (s s' : Life) : Prop where
  mem : t ∈ s.threads
  sub : s'.threads ⊆ s.threads
  tickets : s'.tickets + (Thread.isTicket t).toNat = s.tickets
  eq : s' = { s with threads := s'.threads }

theorem finished (h : s.finish t = some s') : Finished t s s' := by
  have htickets := tickets_finish h
  rw [finish] at h
  split_ifs at h with ht
  cases h
  exact ⟨ht, erase_subset, htickets, rfl⟩

/-- The rest stays as it is. -/
theorem Finished.same (h : Finished t s s') :
    s'.carrier = s.carrier ∧ s'.row = s.row ∧ s'.holderId = s.holderId ∧ s'.pending = s.pending ∧
      s'.accepted = s.accepted ∧ s'.reported = s.reported := by
  rw [h.eq]
  exact ⟨rfl, rfl, rfl, rfl, rfl, rfl⟩

/-! ## The kinds of steps -/

/-- The carrier goes on, and what has been registered or stored stays as it is. -/
theorem Sound.carry (h : s.Sound m) (hrow : s'.row = s.row) (hholder : s'.holderId = s.holderId)
    (hpending : s'.pending = s.pending) (hthreads : s'.threads = s.threads)
    (hunstored : s'.carrier.unstored = true → s.carrier.unstored = true)
    (hunsent : s'.carrier.unsent = true → s.carrier.unsent = true)
    (hearly : s'.carrier.early m.kind = true → s.carrier.early m.kind = true) : s'.Sound m := by
  have htickets : s'.tickets = s.tickets := by rw [Life.tickets, hthreads, hpending, Life.tickets]
  refine ⟨fun hc => ?_, fun hc => ?_, fun hc => ?_, fun hk => ?_, fun hr => ?_, ?_, ?_, ?_⟩
  · rw [hrow]
    exact h.unstored (hunstored hc)
  · rw [hrow]
    exact h.unsent (hunsent hc)
  · rw [htickets, hholder]
    exact h.early (hearly hc)
  · rw [htickets]
    exact h.tickets hk
  · rw [hrow] at hr
    obtain ⟨hkind, hnone, hcarrier⟩ := h.propagated hr
    refine ⟨hkind, htickets.trans hnone, ?_⟩
    by_contra hc
    rw [hearly (Bool.eq_true_of_not_eq_false hc)] at hcarrier
    cases hcarrier
  · rw [hthreads]
    exact h.waiting
  · rw [hthreads, hholder]
    exact h.popping
  · rw [hthreads]
    exact h.writing

/-- The carrier writes a status. -/
theorem Sound.store (h : s.Sound m) {row : Option Status} {packetId : Option ℤ} {c : Carrier}
    (hunstored : c.unstored = false) (hunsent : c.unsent = true → row = some .queued)
    (hearly : c.early m.kind = true → s.carrier.early m.kind = true)
    (hrow : row ≠ some .propagated) :
    Sound m { s with row := row, packetId := packetId, carrier := c } where
  unstored hc := absurd (hc.symm.trans hunstored) (by decide)
  unsent := hunsent
  early hc := h.early (hearly hc)
  tickets := h.tickets
  propagated hr := absurd hr hrow
  waiting := h.waiting
  popping := h.popping
  writing := h.writing

/-- The threads change, and maybe the entry is taken. -/
theorem Sound.report (h : s.Sound m) {pending : Bool} {threads : List Thread}
    (reported : Option Status)
    (htickets : threads.countP Thread.isTicket + pending.toNat ≤ s.tickets ∨
      m.kind = .meshtastic ∧ s.carrier.early m.kind = false)
    (hwaiting : ∀ st, .waiting st ∈ threads → m.kind.reports st = true)
    (hpopping : ∀ st, .popping st ∈ threads →
      m.kind.reports st = true ∧ (m.kind = .meshtastic → s.holderId = true))
    (hwriting : ∀ st, .writing st ∈ threads →
      st = .read ∨ st = .timeout ∨ m.kind.reports st = true) :
    Sound m { s with pending := pending, threads := threads, reported := reported } where
  unstored := h.unstored
  unsent := h.unsent
  early hc := by
    obtain ⟨hnone, hholder⟩ := h.early hc
    refine ⟨?_, hholder⟩
    rcases htickets with hle | ⟨_, hearly⟩
    · exact Nat.le_zero.1 (hle.trans_eq hnone)
    · rw [hc] at hearly
      cases hearly
  tickets hk := by
    rcases htickets with hle | ⟨hkind, _⟩
    · exact hle.trans (h.tickets hk)
    · exact absurd hkind hk
  propagated hr := by
    obtain ⟨hkind, hnone, hcarrier⟩ := h.propagated hr
    refine ⟨hkind, ?_, hcarrier⟩
    rcases htickets with hle | ⟨hkind', _⟩
    · exact Nat.le_zero.1 (hle.trans_eq hnone)
    · rw [hkind] at hkind'
      cases hkind'
  waiting := hwaiting
  popping := hpopping
  writing := hwriting

theorem Sound.spawn (h : s.Sound m) {t : Thread} (reported : Option Status)
    (hticket : t.isTicket = false)
    (ht : (∀ st, t = .waiting st → m.kind.reports st = true) ∧
      (∀ st, t = .popping st →
        m.kind.reports st = true ∧ (m.kind = .meshtastic → s.holderId = true)) ∧
      ∀ st, t = .writing st → st = .read ∨ st = .timeout ∨ m.kind.reports st = true) :
    Sound m { s.spawn t with reported := reported } := by
  refine h.report _ (.inl ?_) (fun st hst => ?_) (fun st hst => ?_) fun st hst => ?_
  · have hcount := countP_cons_ticket t s.threads
    rw [hticket] at hcount
    exact Nat.le_of_eq (congrArg (· + s.pending.toNat) hcount)
  · exact (mem_cons.1 hst).elim (fun heq => ht.1 st heq.symm) (h.waiting st)
  · exact (mem_cons.1 hst).elim (fun heq => ht.2.1 st heq.symm) (h.popping st)
  · exact (mem_cons.1 hst).elim (fun heq => ht.2.2 st heq.symm) (h.writing st)

theorem Sound.finish (h : s.Sound m) {t : Thread} (hf : Finished t s s') : s'.Sound m := by
  rw [hf.eq]
  refine h.report _ (.inl ?_) (fun st hst => h.waiting st (hf.sub hst))
    (fun st hst => h.popping st (hf.sub hst)) fun st hst => h.writing st (hf.sub hst)
  have htickets := hf.tickets
  rw [hf.eq, Life.tickets] at htickets
  exact Nat.le_of_add_right_le (Nat.le_of_eq htickets)

/-! ## One step -/

theorem afterTracking_late (r : Accepted) (direct : Bool) :
    (afterTracking m r direct).unstored = false ∧ (afterTracking m r direct).unsent = false ∧
      (afterTracking m r direct).early m.kind = false := by
  rw [afterTracking]
  split_ifs <;> exact ⟨rfl, rfl, rfl⟩

theorem register_stored (r : Accepted) (direct : Bool) :
    (register m r direct).unstored = false ∧ (register m r direct).unsent = false := by
  have hlate := afterTracking_late (m := m) r direct
  rw [register]
  split
  · exact ⟨rfl, rfl⟩
  · exact ⟨hlate.1, hlate.2.1⟩
  · exact ⟨rfl, rfl⟩

/-- The message goes from where it has just been stored to where it is registered. -/
theorem Sound.registered (h : s.Sound m) {packetId : Option ℤ} {r : Accepted} {direct : Bool}
    (hearly : s.carrier.early m.kind = true) :
    Sound m { s with
      row := some .sent, packetId := packetId, carrier := register m r direct } := by
  obtain ⟨hunstored, hunsent⟩ := register_stored (m := m) r direct
  refine h.store hunstored (fun hc => ?_) (fun _ => hearly) (by decide)
  rw [hunsent] at hc
  cases hc

theorem early_of_unsent {c : Carrier} {kind : Kind} (h : c.unsent = true) : c.early kind = true := by
  cases c <;> first | rfl | cases h

theorem update_queued (h : s.row = some .queued) (st : Status) : (s.update st).row = some st := by
  rw [update, h, Option.map_some, overwrite, if_neg fun hboth => absurd hboth.2 (by decide)]

theorem Sound.go (h : s.Sound m) (hgo : s.go m = some s') : s'.Sound m := by
  have hcarrier : ∀ c, s.carrier = c → (c.early m.kind = true → s.carrier.early m.kind = true) :=
    fun c hc => hc ▸ id
  unfold Life.go at hgo
  split at hgo <;> cases hgo
  next hc => exact h.store rfl nofun (fun hc => by cases hc) (by decide)
  next r hc => exact h.registered (hcarrier _ hc rfl)
  next hc => exact h.store rfl (fun _ => rfl) (fun _ => hcarrier _ hc rfl) (by decide)
  next hc =>
    exact h.carry rfl rfl rfl rfl (fun hc' => by cases hc') (fun _ => by rw [hc]; rfl)
      fun _ => hcarrier _ hc rfl
  next r hc =>
    rw [update, h.unsent (by rw [hc]; rfl)]
    exact h.registered (hcarrier _ hc rfl)
  next outcome hsent hc =>
    have hrow := h.unsent (by rw [hc]; rfl)
    rw [update, hrow]
    refine h.store rfl nofun (fun hc => by cases hc) ?_
    rw [Option.map_some, overwrite, if_neg fun hboth => absurd hboth.2 (by decide)]
    cases outcome <;> simp [Outcome.status]
  next r direct hc =>
    obtain ⟨hnone, _⟩ := h.early (hcarrier _ hc rfl)
    refine ⟨nofun, nofun, fun hc' => ⟨hnone, fun hk => ?_⟩, h.tickets, fun hr => ?_, h.waiting, fun st hst => ⟨(h.popping st hst).1, fun _ => rfl⟩,
      h.writing⟩
    · rw [hk] at hc'
      cases hc'
    · have hlate := (h.propagated hr).2.2
      rw [hcarrier _ hc rfl] at hlate
      cases hlate
  next r direct hc =>
    obtain ⟨hunstored, hunsent, hlate⟩ := afterTracking_late (m := m) r direct
    by_cases hk : m.kind = .meshtastic
    · rw [if_pos hk]
      refine ⟨nofun, nofun, nofun, fun hk' => absurd hk hk', fun hr => ?_, h.waiting, h.popping,
        h.writing⟩
      have hlxmf := (h.propagated hr).1
      rw [hk] at hlxmf
      cases hlxmf
    · rw [if_neg hk]
      have hearly : s.carrier.early m.kind = true := hcarrier _ hc (by simpa [Carrier.early] using hk)
      obtain ⟨hnone, _⟩ := h.early hearly
      refine ⟨fun hc' => ?_, fun hc' => ?_, fun hc' => ?_, fun _ => ?_, fun hr => ?_, h.waiting,
        h.popping, h.writing⟩
      · exact absurd (hc'.symm.trans hunstored) (by decide)
      · exact absurd (hc'.symm.trans hunsent) (by decide)
      · exact absurd (hc'.symm.trans hlate) (by decide)
      · rw [Life.tickets] at hnone ⊢
        dsimp only
        have := Bool.toNat_le (s.pending || m.kind.tracks r)
        omega
      · have hlate := (h.propagated hr).2.2
        rw [hearly] at hlate
        cases hlate
  next r direct hc =>
    obtain ⟨hunstored, hunsent, hlate⟩ := afterTracking_late (m := m) r direct
    refine h.carry rfl rfl rfl rfl (fun hc' => ?_) (fun hc' => ?_) fun hc' => ?_
    · exact absurd (hc'.symm.trans hunstored) (by decide)
    · exact absurd (hc'.symm.trans hunsent) (by decide)
    · exact absurd (hc'.symm.trans hlate) (by decide)
  next hc =>
    refine h.store rfl nofun (fun hc => by cases hc) ?_
    rw [update]
    cases s.row with
    | none => simp
    | some old =>
      rw [Option.map_some, overwrite, if_neg fun hboth => absurd hboth.1 (by decide)]
      exact fun heq => absurd (Option.some.inj heq) (by decide)

/-- A thread with something to write from the entry means that the message has been registered. -/
theorem Sound.late (h : s.Sound m) (hmem : Thread.writing st ∈ s.threads) (hst : st ≠ .read) :
    0 < s.tickets ∧ s.carrier.early m.kind = false := by
  have hpos : 0 < s.threads.countP Thread.isTicket :=
    countP_pos_iff.2 ⟨_, hmem, decide_eq_true hst⟩
  have htickets : 0 < s.tickets := Nat.add_pos_left hpos _
  refine ⟨htickets, ?_⟩
  by_contra hc
  have hnone := (h.early (Bool.eq_true_of_not_eq_false hc)).1
  omega

theorem Sound.pop (h : s.Sound m) (hpop : s.pop m st = some s') : s'.Sound m := by
  obtain ⟨s₁, hs₁, rfl⟩ := Option.map_eq_some_iff.1 hpop
  have hf := finished hs₁
  have h₁ := h.finish hf
  obtain ⟨hreports, hholder⟩ := h.popping st hf.mem
  split_ifs with hgo
  · refine h₁.report s₁.reported ?_ (fun st' hst' => ?_) (fun st' hst' => ?_)
      fun st' hst' => ?_
    · by_cases hk : m.kind = .meshtastic
      · refine .inr ⟨hk, ?_⟩
        by_contra hc
        have hearly : s.carrier.early m.kind = true := by
          have hc := Bool.eq_true_of_not_eq_false hc
          rwa [hf.eq] at hc
        rw [(h.early hearly).2 hk] at hholder
        exact absurd (hholder hk) (by decide)
      · -- the entry becomes the thread
        have hpending : s₁.pending = true := hgo.resolve_right hk
        left
        rw [countP_cons_ticket, Life.tickets, hpending]
        have := Bool.toNat_le (Thread.isTicket (.writing st))
        exact Nat.add_le_add_left this _
    · exact (mem_cons.1 hst').elim nofun (h₁.waiting st')
    · exact (mem_cons.1 hst').elim nofun (h₁.popping st')
    · refine (mem_cons.1 hst').elim (fun heq => ?_) (h₁.writing st')
      cases heq
      exact .inr (.inr hreports)
  · exact h₁

theorem Sound.sweep (h : s.Sound m) (hpending : s.pending = true) :
    Sound m ({ s with pending := false }.spawn (.writing .timeout)) := by
  refine h.report _ (.inl ?_) (fun st hst => ?_) (fun st hst => ?_) fun st hst => ?_
  · rw [countP_cons_ticket, Life.tickets, hpending]
    exact Nat.le_refl _
  · exact (mem_cons.1 hst).elim nofun (h.waiting st)
  · exact (mem_cons.1 hst).elim nofun (h.popping st)
  · refine (mem_cons.1 hst).elim (fun heq => ?_) (h.writing st)
    cases heq
    exact .inr (.inl rfl)

theorem Sound.write (h : s.Sound m) {s₁ : Life} (hf : Finished (.writing st) s s₁)
    (hread : st = .read → s.carrier.unsent = false) : (s₁.update st).Sound m := by
  have h₁ := h.finish hf
  have hcarrier : s₁.carrier = s.carrier := by rw [hf.eq]
  refine ⟨fun hc => ?_, fun hc => ?_, h₁.early, h₁.tickets, fun hr => ?_, h₁.waiting, h₁.popping,
    h₁.writing⟩
  · rw [update, h₁.unstored hc]
    rfl
  · by_cases hst : st = .read
    · rw [update, hcarrier, hread hst] at hc
      cases hc
    · have hlate := (h.late hf.mem hst).2
      have hunsent : s.carrier.unsent = true := hcarrier ▸ hc
      rw [early_of_unsent hunsent] at hlate
      cases hlate
  · -- `propagated` is in place already, or it is what is written
    obtain ⟨old, hold, heq⟩ := Option.map_eq_some_iff.1 hr
    rw [overwrite] at heq
    split_ifs at heq with hboth
    · rw [heq] at hboth
      exact absurd hboth.2 (by decide)
    · subst heq
      obtain ⟨_, hlate⟩ := h.late hf.mem (by decide)
      have hkind : m.kind = .lxmf := by
        rcases h.writing _ hf.mem with heq | heq | hreports
        · cases heq
        · cases heq
        · cases hk : m.kind <;> rw [hk] at hreports <;> first | rfl | cases hreports
      have hone := h.tickets (by rw [hkind]; decide)
      have htickets : s₁.tickets + 1 = s.tickets := hf.tickets
      exact ⟨hkind, Nat.le_zero.1 (by change s₁.tickets ≤ 0; omega), hcarrier ▸ hlate⟩

theorem Sound.next (h : s.Sound m) {e : Event}
    (he : e = .write .read → s.carrier.unsent = false) (hnext : s.next m e = some s') :
    s'.Sound m := by
  -- most steps only move the carrier
  have hcarry : ∀ {c d : Carrier} {accepted : Option Accepted}, s.carrier = d →
      (c.unstored = true → d.unstored = true) → (c.unsent = true → d.unsent = true) →
      (c.early m.kind = true → d.early m.kind = true) →
      Sound m { s with carrier := c, accepted := accepted } := fun hd hunstored hunsent hearly =>
    h.carry rfl rfl rfl rfl (hd ▸ hunstored) (hd ▸ hunsent) (hd ▸ hearly)
  cases e with
  | available answer | answer a =>
    simp only [Life.next] at hnext
    split at hnext <;> cases hnext
    all_goals next hc =>
      exact hcarry hc (by first | exact fun _ => rfl | nofun) (by first | exact fun _ => rfl | nofun)
        fun _ => rfl
  | raise =>
    simp only [Life.next] at hnext
    split at hnext <;> cases hnext
    next hc => exact hcarry hc nofun nofun nofun
  | go => exact h.go hnext
  | take | requeue | vanish | evict =>
    simp only [Life.next] at hnext
    split_ifs at hnext with hc
    cases hnext
    exact hcarry hc nofun (fun _ => rfl) fun _ => rfl
  | expire =>
    simp only [Life.next] at hnext
    split_ifs at hnext with hc
    cases hnext
    rcases hc with hc | hc <;> exact hcarry hc nofun (fun _ => rfl) fun _ => rfl
  | report st =>
    simp only [Life.next, Life.report] at hnext
    split at hnext
    · cases hnext
    · split_ifs at hnext with hreports hwait
      · cases hnext
        refine h.spawn _ rfl ⟨fun st' heq => ?_, nofun, nofun⟩
        cases heq
        exact hreports.1
      · cases hnext
        refine h.spawn _ rfl ⟨nofun, fun st' heq => ?_, nofun⟩
        cases heq
        refine ⟨hreports.1, fun hk => ?_⟩
        by_contra hholder
        exact hwait ⟨hk, Bool.eq_false_of_not_eq_true hholder⟩
  | wake st =>
    simp only [Life.next] at hnext
    split_ifs at hnext
    obtain ⟨s₁, hs₁, rfl⟩ := Option.map_eq_some_iff.1 hnext
    have hf := finished hs₁
    have h₁ := h.finish hf
    split_ifs with hholder
    · refine h₁.spawn s₁.reported rfl ⟨nofun, fun st' heq => ?_, nofun⟩
      cases heq
      exact ⟨h.waiting st hf.mem, fun _ => hholder⟩
    · exact h₁
  | giveUp st => exact h.finish (finished hnext)
  | pop st => exact h.pop hnext
  | write st =>
    obtain ⟨s₁, hs₁, rfl⟩ := Option.map_eq_some_iff.1 hnext
    refine h.write (finished hs₁) fun hst => ?_
    subst hst
    exact he rfl
  | receipt =>
    simp only [Life.next] at hnext
    split_ifs at hnext
    cases hnext
    refine h.spawn s.reported rfl ⟨nofun, nofun, fun st' heq => ?_⟩
    cases heq
    exact .inl rfl
  | sweep =>
    simp only [Life.next] at hnext
    split_ifs at hnext with hpending
    cases hnext
    exact h.sweep hpending

end Life

/-! ## What the writes replace -/

/-- As `Keeps`, and `propagated` counts as final. -/
def Lasts (old new : Status) : Prop :=
  (old.IsTerminal ∨ old = .propagated →
    new = old ∨ new ∈ [Status.delivered, .broadcastSent, .read, .propagated]) ∧
  (old = .read → new = .read) ∧ (old = .delivered → new = .delivered ∨ new = .read)

theorem Lasts.refl (old : Status) : Lasts old old := ⟨fun _ => .inl rfl, id, .inl⟩

theorem Lasts.trans {a b c : Status} (hab : Lasts a b) (hbc : Lasts b c) : Lasts a c := by
  refine ⟨fun ha => ?_, fun ha => hbc.2.1 (hab.2.1 ha), fun ha => ?_⟩
  · rcases hab.1 ha with rfl | hb
    · exact hbc.1 ha
    · have hfinal : b.IsTerminal ∨ b = .propagated := by
        simp only [mem_cons, not_mem_nil, or_false] at hb
        rcases hb with rfl | rfl | rfl | rfl <;> decide
      rcases hbc.1 hfinal with rfl | hc
      · exact .inr hb
      · exact .inr hc
  · rcases hab.2.2 ha with hb | hb
    · exact hbc.2.2 hb
    · exact .inr (hbc.2.1 hb)

theorem Lasts.keeps {new : Status} (h : Lasts old new) : Keeps old new := by
  refine ⟨fun hold => ?_, h.2⟩
  refine (h.1 (.inl hold)).imp_right fun hnew => ?_
  simp only [mem_cons, not_mem_nil, or_false] at hnew
  rcases hnew with rfl | rfl | rfl | rfl <;> decide

/-- A message under way, or one that was given up for a while, may become anything. -/
theorem lasts_of_not_final {new : Status} (hterminal : ¬old.IsTerminal) (hold : old ≠ .propagated) :
    Lasts old new := by
  refine ⟨fun h => ?_, fun h => ?_, fun h => ?_⟩
  · exact absurd h (not_or.2 ⟨hterminal, hold⟩)
  all_goals exact absurd (h ▸ by decide) hterminal

theorem lasts_of_fits (h : Fits st old) (hst : st ∈ [Status.delivered, .broadcastSent, .propagated] ∨
    st = .deliveryFailed ∧ old ≠ .propagated) : Lasts old st := by
  obtain ⟨hread, hdelivered, hfailed⟩ := h
  refine ⟨fun hold => ?_, fun hold => absurd hold hread, fun hold => .inl (hdelivered hold)⟩
  rcases hst with hst | ⟨rfl, hne⟩
  · right
    simp only [mem_cons, not_mem_nil, or_false] at hst ⊢
    tauto
  · exact .inl (hfailed (hold.resolve_right hne) rfl).symm

/-- A stored status lasts from the one state to the other. -/
def Lasting (s s' : Life) : Prop := ∀ old ∈ s.row, ∃ new ∈ s'.row, Lasts old new

theorem Lasting.of_row (h : s'.row = s.row) : Lasting s s' := fun old hold =>
  ⟨old, h ▸ hold, .refl old⟩

theorem Lasting.update (h : ∀ old ∈ s.row, Lasts old (Life.overwrite st old)) :
    Lasting s (s.update st) := fun old hold =>
  ⟨_, Option.mem_map_of_mem _ hold, h old hold⟩

theorem lasting_go (h : s.Sound m) (he : s.Orderly .go) (hgo : s.go m = some s') :
    Lasting s s' := by
  have hnone : ∀ {row : Option Status}, s.row = none → ∀ old ∈ s.row, ∃ new ∈ row, Lasts old new :=
    fun hrow old hold => by rw [hrow] at hold; cases hold
  have hqueued : ∀ st, s.row = some .queued → ∀ old ∈ s.row, Lasts old (Life.overwrite st old) :=
    fun st hrow old hold => by
      rw [hrow] at hold
      cases hold
      exact lasts_of_not_final (by decide) (by decide)
  unfold Life.go at hgo
  split at hgo <;> cases hgo
  next hc => exact hnone (h.unstored (by rw [hc]; rfl))
  next r hc => exact hnone (h.unstored (by rw [hc]; rfl))
  next hc => exact hnone (h.unstored (by rw [hc]; rfl))
  next hc => exact .of_row rfl
  next r hc => exact Lasting.update (hqueued _ (h.unsent (by rw [hc]; rfl)))
  next outcome _ hc => exact Lasting.update (hqueued _ (h.unsent (by rw [hc]; rfl)))
  next r direct hc => exact .of_row rfl
  next r direct hc => exact .of_row rfl
  next r direct hc => exact .of_row rfl
  next hc =>
    refine Lasting.update fun old hold => ?_
    rw [Life.overwrite, if_neg fun hboth => absurd hboth.1 (by decide)]
    exact lasts_of_fits (he hc old hold) (.inl (by decide))

theorem lasting_write (h : s.Sound m) {s₁ : Life} (hf : Life.Finished (.writing st) s s₁)
    (he : s.Orderly (.write st)) : Lasting s (s₁.update st) := by
  have hrow : s₁.row = s.row := by rw [hf.eq]
  -- what came out of the entry is not written over `propagated`, which did too
  have hfirst : st ≠ .read → ∀ old ∈ s.row, old ≠ .propagated := fun hst old hold heq => by
    obtain ⟨hpos, _⟩ := h.late hf.mem hst
    rw [(h.propagated (heq ▸ hold)).2.1] at hpos
    cases hpos
  suffices hlasts : ∀ old ∈ s.row, Lasts old (Life.overwrite st old) by
    intro old hold
    exact ⟨_, Option.mem_map_of_mem _ (hrow.symm ▸ hold), hlasts old hold⟩
  intro old hold
  rw [Life.overwrite]
  split_ifs with hboth
  · exact .refl old
  · rcases h.writing st hf.mem with rfl | rfl | hreports
    · exact ⟨fun _ => .inr (by decide), fun _ => rfl, fun _ => .inr rfl⟩
    · exact lasts_of_not_final (fun ht => hboth ⟨by decide, ht⟩)
        (hfirst (by decide) old hold)
    · have hst : st = .delivered ∨ st = .propagated ∨ st = .deliveryFailed := by
        cases hk : m.kind <;> rw [hk] at hreports <;> simp [Kind.reports] at hreports <;> tauto
      rcases hst with rfl | rfl | rfl
      · exact lasts_of_fits (he old hold) (.inl (by decide))
      · exact lasts_of_fits (he old hold) (.inl (by decide))
      · exact lasts_of_fits (he old hold) (.inr ⟨rfl, hfirst (by decide) old hold⟩)

/-- All other steps leave the stored status as it is. -/
theorem row_next {e : Event} (hgo : e ≠ .go) (hwrite : ∀ st, e ≠ .write st)
    (hnext : s.next m e = some s') : s'.row = s.row := by
  have hfinish : ∀ {t : Thread} {s₁ : Life}, s.finish t = some s₁ → s₁.row = s.row :=
    fun h => by rw [(Life.finished h).eq]
  cases e with
  | go => exact absurd rfl hgo
  | write st => exact absurd rfl (hwrite st)
  | report st =>
    simp only [Life.next, Life.report] at hnext
    split at hnext
    · cases hnext
    · split_ifs at hnext <;> cases hnext <;> rfl
  | wake st =>
    simp only [Life.next] at hnext
    split_ifs at hnext
    obtain ⟨s₁, hs₁, rfl⟩ := Option.map_eq_some_iff.1 hnext
    have hrow := hfinish hs₁
    split_ifs <;> exact hrow
  | giveUp st => exact hfinish hnext
  | pop st =>
    obtain ⟨s₁, hs₁, rfl⟩ := Option.map_eq_some_iff.1 hnext
    have hrow := hfinish hs₁
    split_ifs <;> exact hrow
  | available answer | answer a =>
    simp only [Life.next] at hnext; split at hnext <;> cases hnext <;> rfl
  | raise => simp only [Life.next] at hnext; split at hnext <;> cases hnext; rfl
  | _ => simp only [Life.next] at hnext; split_ifs at hnext; cases hnext; rfl

theorem lasting_next (h : s.Sound m) {e : Event} (he : s.Orderly e)
    (hnext : s.next m e = some s') : Lasting s s' := by
  by_cases hgo : e = .go
  · subst hgo
    exact lasting_go h he hnext
  · by_cases hwrite : ∃ st, e = .write st
    · obtain ⟨st, rfl⟩ := hwrite
      obtain ⟨s₁, hs₁, rfl⟩ := Option.map_eq_some_iff.1 hnext
      exact lasting_write h (Life.finished hs₁) he
    · exact .of_row (row_next hgo (not_exists.1 hwrite) hnext)

/-! ## Runs -/

theorem sound_start (h : (life m).init s) : s.Sound m := by
  rcases h with rfl | rfl
  · exact ⟨fun _ => rfl, nofun, fun _ => ⟨rfl, fun _ => rfl⟩, fun _ => Nat.zero_le 1, nofun, nofun,
      nofun, nofun⟩
  · exact ⟨nofun, fun _ => rfl, fun _ => ⟨rfl, fun _ => rfl⟩, fun _ => Nat.zero_le 1, nofun, nofun,
      nofun, nofun⟩

theorem sound_of_reach (h : (life m).Reach Life.Orderly s) : s.Sound m :=
  h.induction (fun _ hs => sound_start hs) fun _ _ _ h he hnext =>
    h.next (fun heq => by subst heq; exact he) hnext

/-- A direct message over the serial interface. -/
def directMessage : Outgoing where
  kind := .meshtastic

def directResult : Accepted where
  ackTracking := some "serial"
  packetId := some 7

/-- It is sent, and stored and registered. -/
def directSend : List Event :=
  [.available (some true), .answer (.accepts directResult), .go, .go, .go, .go]

/-- The recipient reads it before its acknowledgement has come through. -/
def readFirst : List Event := [.receipt, .write .read]

def lateAck : List Event := [.report .delivered, .pop .delivered, .write .delivered]

end ReticulumPi.Messaging.Delivery
