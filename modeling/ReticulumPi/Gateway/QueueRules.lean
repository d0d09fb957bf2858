import Mathlib.Data.List.Pairwise
import ReticulumPi.Gateway.Queues

/-!
# The rules of the queues

Neither queue outgrows its size, no enqueue raises, what is evicted is the
oldest entry of its queue, and a message of the mesh is attempted once for each
recipient (`WithinRules`). This holds in every run in which the sizes are
positive, the drain puts an entry back only where there is room, and a pass of
the retry loop puts entries back only while nothing was deferred, nothing being
evicted once it has (`Careful`).

In the meantime a pass has turned the pending queue: the entries that it has put
back stand behind those that are younger (`Turned`).
-/

namespace ReticulumPi.Gateway.Queues

open List

variable {ρ τ α β : Type} {c : Config ρ} {s s' : System ρ τ α}

/-! ## What is to be shown -/

/-- What was evicted was older than all that was left. -/
def Queue.EvictsOldest (q : Queue α) : Prop :=
  ∀ e ∈ q.evicted, ∀ left ∈ e.2, e.1.number < left.number

structure WithinRules (c : Config ρ) (s : System ρ τ α) : Prop where
  sendQueue : s.sendQueue.entries.length ≤ c.sendQueueMax
  pendingLxmf : s.pendingLxmf.entries.length ≤ c.pendingLxmfMax
  raised : s.raised = false
  forwardRaised : ∀ f ∈ s.forwards, f.raised = false
  sendEvicts : s.sendQueue.EvictsOldest
  pendingEvicts : s.pendingLxmf.EvictsOldest
  /-- Each call goes through all recipients, one after the other. -/
  attempted : ∀ f ∈ s.forwards, f.attempted ++ f.remaining = c.recipients

/-- The pass that is under way. -/
def Loop.pass? : Loop α β → Option (Pass β)
  | .retrying pass => some pass
  | _ => none

/-- The step is one that the queues can take. -/
def Careful (c : Config ρ) (s : System ρ τ α) : Event α τ → Prop
  | .enqueueLxmfSend _ _ => 0 < c.sendQueueMax
  | .defer _ _ => 0 < c.pendingLxmfMax ∧
      ∀ pass ∈ s.loop.pass?, c.pendingLxmfMax ≤ s.pendingLxmf.entries.length → pass.putBack = 0
  | .checkRate false | .chooseInterface false | .sent false false =>
      s.sendQueue.entries.length < c.sendQueueMax
  | .reattempt false => ∀ pass ∈ s.loop.pass?, pass.deferred = false
  | _ => True

instance : ∀ e, Decidable (Careful c s e)
  | .enqueueLxmfSend _ _ => inferInstanceAs (Decidable (_ < _))
  | .defer _ _ => inferInstanceAs (Decidable (_ ∧ _))
  | .checkRate false | .chooseInterface false | .sent false false =>
      inferInstanceAs (Decidable (_ < _))
  | .reattempt false => inferInstanceAs (Decidable (∀ _ ∈ _, _))
  | .checkRate true | .chooseInterface true | .sent true _ | .sent false true
  | .reattempt true | .forward _ | .attempt _ _ | .drain | .take _ | .retry _ | .retake =>
      inferInstanceAs (Decidable True)

/-! ## A queue in order -/

/-- The entries are in the order of their numbers, which are below `n`. -/
structure InOrder (l : List (Entry α)) (n : ℕ) : Prop where
  sorted : l.Pairwise fun a b => a.number < b.number
  below : ∀ e ∈ l, e.number < n

variable {l l' : List (Entry α)} {n max : ℕ} {q q' : Queue α} {now : ℚ} {content : α}

theorem InOrder.sublist (h : InOrder l n) (hl : l'.Sublist l) : InOrder l' n :=
  ⟨h.sorted.sublist hl, fun e he => h.below e (hl.subset he)⟩

theorem inOrder_nil : InOrder ([] : List (Entry α)) n := ⟨.nil, fun _ h => nomatch h⟩

theorem InOrder.snoc (h : InOrder l n) (now : ℚ) (content : α) :
    InOrder (l ++ [⟨n, now, content⟩]) (n + 1) := by
  refine ⟨pairwise_append.2 ⟨h.sorted, pairwise_singleton _ _, fun a ha b hb => ?_⟩,
    fun e he => ?_⟩
  · obtain rfl := mem_singleton.1 hb
    exact h.below a ha
  · rcases mem_append.1 he with he | he
    · exact (h.below e he).trans (Nat.lt_succ_self n)
    · obtain rfl := mem_singleton.1 he
      exact Nat.lt_succ_self n

/-- An enqueue appends an entry where there is room, or puts it in the place of the first one. -/
theorem enqueue_cases (hpos : 0 < max) (q : Queue α) (now : ℚ) (content : α) :
    ∃ q', q.enqueue max now content = some q' ∧ q'.enqueued = q.enqueued + 1 ∧
      ((q.entries.length < max ∧ q'.entries = q.entries ++ [⟨q.enqueued, now, content⟩] ∧
        q'.evicted = q.evicted) ∨
      ∃ first rest, q.entries = first :: rest ∧ max ≤ q.entries.length ∧
        q'.entries = rest ++ [⟨q.enqueued, now, content⟩] ∧
        q'.evicted = (first, rest) :: q.evicted) := by
  rw [Queue.enqueue]
  split_ifs with hfull
  · rcases hentries : q.entries with _ | ⟨first, rest⟩
    · rw [hentries] at hfull
      exact absurd hfull (by simpa using hpos.ne')
    · exact ⟨_, rfl, rfl, .inr ⟨first, rest, rfl, hentries ▸ hfull, rfl, rfl⟩⟩
  · exact ⟨_, rfl, rfl, .inl ⟨not_le.1 hfull, rfl, rfl⟩⟩

/-- An enqueue into a queue in order, behind what is held. -/
theorem enqueue_inOrder (hpos : 0 < max) {held : List (Entry α)}
    (horder : InOrder (held ++ q.entries) q.enqueued) (hlen : q.entries.length ≤ max)
    (hevicts : q.EvictsOldest) (now : ℚ) (content : α) :
    ∃ q', q.enqueue max now content = some q' ∧ InOrder (held ++ q'.entries) q'.enqueued ∧
      q'.entries.length ≤ max ∧ q'.EvictsOldest := by
  obtain ⟨q', hq', henqueued, hcases⟩ := enqueue_cases hpos q now content
  refine ⟨q', hq', ?_⟩
  rw [henqueued]
  rcases hcases with ⟨hroom, hentries, hevicted⟩ | ⟨first, rest, hq, -, hentries, hevicted⟩
  · rw [hentries, ← append_assoc]
    refine ⟨horder.snoc now content, ?_, ?_⟩
    · rw [length_append, length_singleton]
      exact hroom
    · rw [Queue.EvictsOldest, hevicted]
      exact hevicts
  · rw [hq] at horder hlen
    have hrest : InOrder (held ++ rest) q.enqueued :=
      horder.sublist ((sublist_cons_self first rest).append_left held)
    rw [hentries, ← append_assoc]
    refine ⟨hrest.snoc now content, ?_, ?_⟩
    · rw [length_append, length_singleton]
      exact hlen
    · -- The first entry is older than the rest.
      have hfirst := pairwise_cons.1 (horder.sorted.sublist (sublist_append_right held _))
      rw [Queue.EvictsOldest, hevicted]
      intro e he
      rcases mem_cons.1 he with rfl | he
      · exact hfirst.1
      · exact hevicts e he

/-! ## The pending queue during a pass -/

/-- The pending queue in a pass: as it was, but for the entry that is held, if nothing was put
    back; else those that are to be taken yet, those put back, and those deferred since. -/
structure Turned (q : Queue β) (pass : Pass β) : Prop where
  straight : pass.putBack = 0 → InOrder (pass.held.toList ++ q.entries) q.enqueued
  turned : 0 < pass.putBack → ∃ rest back new, q.entries = rest ++ back ++ new ∧
    InOrder (back ++ pass.held.toList ++ rest ++ new) q.enqueued ∧ rest.length = pass.remaining ∧
    (pass.deferred = false → new = [])
  remaining : pass.deferred = false → pass.putBack = 0 → q.entries.length = pass.remaining

/-- What holds of the queues along a careful run. -/
structure Sound (c : Config ρ) (s : System ρ τ α) : Prop extends WithinRules c s where
  send : ∀ held, (s.loop = .holding held .rateLimit ∨ s.loop = .holding held .interface ∨
      s.loop = .holding held .sending) → InOrder (held :: s.sendQueue.entries) s.sendQueue.enqueued
  sendOrder : InOrder s.sendQueue.entries s.sendQueue.enqueued
  pass : ∀ pass, s.loop = .retrying pass → Turned s.pendingLxmf pass ∧
    (pass.deferred = false →
      s.pendingLxmf.entries.length + pass.held.toList.length ≤ c.pendingLxmfMax)
  pending : (∀ pass, s.loop ≠ .retrying pass) →
    InOrder s.pendingLxmf.entries s.pendingLxmf.enqueued

/-! ## The steps -/

variable {loop : Loop α (ρ × τ)}

variable (h : Sound c s)
include h

/-- The loop takes an entry of the send queue, or puts it back, or is done with it: the rest stays
    as it is. -/
theorem Sound.ofSend {q : Queue α}
    (hlen : q.entries.length ≤ c.sendQueueMax) (hevicted : q.evicted = s.sendQueue.evicted)
    (hsend : ∀ held, (loop = .holding held .rateLimit ∨ loop = .holding held .interface ∨
      loop = .holding held .sending) → InOrder (held :: q.entries) q.enqueued)
    (horder : InOrder q.entries q.enqueued) (hloop : ∀ pass, s.loop ≠ .retrying pass)
    (hloop' : ∀ pass, loop ≠ .retrying pass) : Sound c { s with sendQueue := q, loop := loop } where
  sendQueue := hlen
  pendingLxmf := h.pendingLxmf
  raised := h.raised
  forwardRaised := h.forwardRaised
  sendEvicts := by
    rw [Queue.EvictsOldest, hevicted]
    exact h.sendEvicts
  pendingEvicts := h.pendingEvicts
  attempted := h.attempted
  send := hsend
  sendOrder := horder
  pass pass hpass := absurd hpass (hloop' pass)
  pending _ := h.pending hloop

/-- The entry is put back where it came from. -/
theorem Sound.requeue {held : Entry α} {stage : Stage}
    (hloop : s.loop = .holding held stage) (hroom : s.sendQueue.entries.length < c.sendQueueMax) :
    Sound c (s.requeue held) := by
  have horder : InOrder (held :: s.sendQueue.entries) s.sendQueue.enqueued := by
    refine h.send held ?_
    cases stage
    · exact .inl hloop
    · exact .inr (.inl hloop)
    · exact .inr (.inr hloop)
  refine h.ofSend hroom rfl (fun held' hheld => ?_) horder (fun pass hpass => ?_)
    fun pass hpass => ?_
  · rcases hheld with hheld | hheld | hheld <;> cases hheld
  · rw [hloop] at hpass
    cases hpass
  · cases hpass

/-- The loop goes on with what it holds, or has done with it. -/
theorem Sound.goOn {held : Entry α} {stage : Stage} (hloop : s.loop = .holding held stage)
    (hnext : (∃ stage', loop = .holding held stage') ∨ loop = .draining ∨ loop = .idle) :
    Sound c { s with loop := loop } := by
  have horder : InOrder (held :: s.sendQueue.entries) s.sendQueue.enqueued := by
    refine h.send held ?_
    cases stage
    · exact .inl hloop
    · exact .inr (.inl hloop)
    · exact .inr (.inr hloop)
  refine h.ofSend h.sendQueue rfl (fun held' hheld => ?_) h.sendOrder (fun pass hpass => ?_)
    fun pass hpass => ?_
  · rcases hnext with ⟨stage', rfl⟩ | rfl | rfl
    · have : held' = held := by
        rcases hheld with hheld | hheld | hheld <;> exact (Loop.holding.inj hheld).1.symm
      exact this ▸ horder
    all_goals rcases hheld with hheld | hheld | hheld <;> cases hheld
  · rw [hloop] at hpass
    cases hpass
  · rcases hnext with ⟨stage', rfl⟩ | rfl | rfl <;> cases hpass

theorem Sound.enqueueLxmfSend (hpos : 0 < c.sendQueueMax) {content : α} {now : ℚ}
    (hs : s.next c (.enqueueLxmfSend content now) = some s') : Sound c s' := by
  -- What the loop holds is older than the queue, if it holds anything.
  obtain ⟨held, hheld, hof⟩ : ∃ held : List (Entry α),
      InOrder (held ++ s.sendQueue.entries) s.sendQueue.enqueued ∧
      ∀ e, (s.loop = .holding e .rateLimit ∨ s.loop = .holding e .interface ∨
        s.loop = .holding e .sending) → held = [e] := by
    by_cases hloop : ∃ e, s.loop = .holding e .rateLimit ∨ s.loop = .holding e .interface ∨
        s.loop = .holding e .sending
    · obtain ⟨e, he⟩ := hloop
      refine ⟨[e], h.send e he, fun e' he' => ?_⟩
      rcases he with he | he | he <;> rw [he] at he' <;>
        rcases he' with he' | he' | he' <;> cases he' <;> rfl
    · exact ⟨[], h.sendOrder, fun e he => absurd ⟨e, he⟩ hloop⟩
  obtain ⟨q, hq, horder, hlen, hevicts⟩ :=
    enqueue_inOrder hpos hheld h.sendQueue h.sendEvicts now content
  rw [System.next, hq] at hs
  cases hs
  exact {
    sendQueue := hlen
    pendingLxmf := h.pendingLxmf
    raised := h.raised
    forwardRaised := h.forwardRaised
    sendEvicts := hevicts
    pendingEvicts := h.pendingEvicts
    attempted := h.attempted
    send := fun e he => by
      have := hof e he
      rwa [this] at horder
    sendOrder := horder.sublist (sublist_append_right held _)
    pass := h.pass
    pending := h.pending }

/-- The calls for the mesh change, and nothing else. -/
theorem Sound.ofForwards {forwards : List (Forward ρ τ)}
    (hforwards : ∀ f ∈ forwards, f ∈ s.forwards ∨
      f.raised = false ∧ f.attempted ++ f.remaining = c.recipients) :
    Sound c { s with forwards := forwards } where
  sendQueue := h.sendQueue
  pendingLxmf := h.pendingLxmf
  raised := h.raised
  forwardRaised f hf := (hforwards f hf).elim (h.forwardRaised f) And.left
  sendEvicts := h.sendEvicts
  pendingEvicts := h.pendingEvicts
  attempted f hf := (hforwards f hf).elim (h.attempted f) And.right
  send := h.send
  sendOrder := h.sendOrder
  pass := h.pass
  pending := h.pending

/-- The pending queue and the loop change, and nothing else. -/
theorem Sound.ofPending {q : Queue (ρ × τ)}
    (hlen : q.entries.length ≤ c.pendingLxmfMax) (hevicts : q.EvictsOldest)
    (hheld : ∀ held stage, loop = .holding held stage → s.loop = .holding held stage)
    (hpass : ∀ pass, loop = .retrying pass → Turned q pass ∧
      (pass.deferred = false → q.entries.length + pass.held.toList.length ≤ c.pendingLxmfMax))
    (hpending : (∀ pass, loop ≠ .retrying pass) → InOrder q.entries q.enqueued) :
    Sound c { s with pendingLxmf := q, loop := loop } where
  sendQueue := h.sendQueue
  pendingLxmf := hlen
  raised := h.raised
  forwardRaised := h.forwardRaised
  sendEvicts := h.sendEvicts
  pendingEvicts := hevicts
  attempted := h.attempted
  send held hloop := h.send held
    (hloop.imp (hheld _ _) (Or.imp (hheld _ _) (hheld _ _)))
  sendOrder := h.sendOrder
  pass := hpass
  pending := hpending

/-! ## The retry loop -/

theorem Sound.retry (hloop : s.loop = .idle) (now : ℚ) : Sound c { s with
      loop := .retrying { now, remaining := s.pendingLxmf.entries.length } } := by
  have horder := h.pending fun pass hpass => by rw [hloop] at hpass; cases hpass
  refine h.ofPending h.pendingLxmf h.pendingEvicts (fun _ _ hloop => nomatch hloop)
    (fun pass hpass => ?_) fun hno => absurd rfl (hno _)
  obtain rfl := Loop.retrying.inj hpass
  exact ⟨⟨fun _ => horder, fun hput => absurd hput (Nat.lt_irrefl _), fun _ _ => rfl⟩,
    fun _ => h.pendingLxmf⟩

omit h

variable {remaining : ℕ} {entry : Entry β}

/-- The pass takes an entry, and drops it if it is out of date. -/
theorem Turned.retake {q : Queue β} {now : ℚ} {putBack : ℕ} {deferred : Bool}
    {rest : List (Entry β)}
    (h : Turned q ⟨now, remaining + 1, none, putBack, deferred⟩) (hq : q.entries = entry :: rest)
    {held : Option (Entry β)} (hheld : held = some entry ∨ held = none) :
    Turned { q with entries := rest } ⟨now, remaining, held, putBack, deferred⟩ := by
  have hsub : held.toList.Sublist [entry] := by
    rcases hheld with rfl | rfl
    · exact .refl _
    · exact nil_sublist _
  refine ⟨fun hput => ?_, fun hput => ?_, fun hdeferred hput => ?_⟩
  · have horder := h.straight hput
    rw [hq] at horder
    exact horder.sublist (hsub.append_right rest)
  · obtain ⟨rest', back, new, hsplit, horder, hlen, hnew⟩ := h.turned hput
    rw [hq] at hsplit
    -- What is to be taken yet comes first.
    obtain ⟨first, rest', rfl⟩ := exists_cons_of_length_eq_add_one hlen
    obtain ⟨rfl, rfl⟩ := List.cons.inj hsplit
    refine ⟨rest', back, new, rfl, ?_, Nat.succ.inj hlen, hnew⟩
    refine horder.sublist ?_
    simp only [Option.toList_none, append_nil, append_assoc]
    exact (hsub.append_right (rest' ++ new)).append_left back
  · have := h.remaining hdeferred hput
    rw [hq] at this
    exact Nat.succ.inj this

theorem Sound.retake (h : Sound c s) (hs : s.next c .retake = some s') : Sound c s' := by
  rw [System.next] at hs
  split at hs
  next now remaining putBack deferred hloop =>
    obtain ⟨hturned, hroom⟩ := h.pass _ hloop
    split at hs
    next hentries =>
      cases hs
      refine h.ofPending h.pendingLxmf h.pendingEvicts (fun _ _ hloop => nomatch hloop)
        (fun _ hpass => nomatch hpass) fun _ => ?_
      rw [hentries]
      exact inOrder_nil
    next entry rest hentries =>
      cases hs
      have hlen := h.pendingLxmf
      rw [hentries, length_cons] at hlen
      refine h.ofPending (Nat.le_of_succ_le hlen) h.pendingEvicts (fun _ _ hloop => nomatch hloop)
        (fun pass hpass => ?_) fun hno => absurd rfl (hno _)
      obtain rfl := Loop.retrying.inj hpass
      refine ⟨hturned.retake hentries ?_, fun _ => ?_⟩
      · split
        · exact .inr rfl
        · exact .inl rfl
      · -- The entry was in the queue before.
        split
        · exact Nat.le_of_succ_le hlen
        · exact hlen
  next now putBack deferred hloop =>
    cases hs
    obtain ⟨hturned, -⟩ := h.pass _ hloop
    refine h.ofPending h.pendingLxmf h.pendingEvicts (fun _ _ hloop => nomatch hloop)
      (fun _ hpass => nomatch hpass) fun _ => ?_
    rcases Nat.eq_zero_or_pos putBack with hput | hput
    · exact hturned.straight hput
    · obtain ⟨rest, back, new, hsplit, horder, hlen, -⟩ := hturned.turned hput
      obtain rfl := length_eq_zero_iff.1 hlen
      rw [hsplit]
      simpa using horder
  next => cases hs

/-- A failed attempt puts the entry back, if nothing was deferred since the pass began. -/
theorem Turned.putBack {q : Queue β} {now : ℚ} {putBack : ℕ}
    (h : Turned q ⟨now, remaining, some entry, putBack, false⟩) :
    Turned (q.append entry) ⟨now, remaining, none, putBack + 1, false⟩ := by
  refine ⟨fun hput => absurd hput (Nat.succ_ne_zero _), fun _ => ?_,
    fun _ hput => absurd hput (Nat.succ_ne_zero _)⟩
  rcases Nat.eq_zero_or_pos putBack with hput | hput
  · refine ⟨q.entries, [entry], [], (append_nil _).symm, ?_, h.remaining rfl hput,
      fun _ => rfl⟩
    simpa [Queue.append] using h.straight hput
  · obtain ⟨rest, back, new, hsplit, horder, hlen, hnew⟩ := h.turned hput
    obtain rfl := hnew rfl
    refine ⟨rest, back ++ [entry], [], ?_, ?_, hlen, fun _ => rfl⟩
    · rw [Queue.append, hsplit]
      simp
    · simpa [Queue.append] using horder

theorem Turned.sent {q : Queue β} {now : ℚ} {putBack : ℕ} {deferred : Bool}
    (h : Turned q ⟨now, remaining, some entry, putBack, deferred⟩) :
    Turned q ⟨now, remaining, none, putBack, deferred⟩ := by
  refine ⟨fun hput => (h.straight hput).sublist (sublist_append_right _ _), fun hput => ?_,
    h.remaining⟩
  obtain ⟨rest, back, new, hsplit, horder, hlen, hnew⟩ := h.turned hput
  refine ⟨rest, back, new, hsplit, horder.sublist ?_, hlen, hnew⟩
  simp only [Option.toList_none, append_nil, append_assoc]
  exact (sublist_append_right _ _).append_left back

theorem Sound.reattempt (h : Sound c s) {sent : Bool} (hcareful : Careful c s (.reattempt sent))
    (hs : s.next c (.reattempt sent) = some s') : Sound c s' := by
  rw [System.next] at hs
  split at hs
  next now remaining entry putBack deferred hloop =>
    cases hs
    obtain ⟨hturned, hroom⟩ := h.pass _ hloop
    cases sent with
    | true =>
      refine h.ofPending h.pendingLxmf h.pendingEvicts (fun _ _ hloop => nomatch hloop)
        (fun pass hpass => ?_) fun hno => absurd rfl (hno _)
      obtain rfl := Loop.retrying.inj hpass
      exact ⟨hturned.sent, fun hdeferred => Nat.le_of_succ_le (hroom hdeferred)⟩
    | false =>
      have hdeferred : deferred = false := hcareful _ (by rw [hloop]; rfl)
      subst hdeferred
      have hlen : (s.pendingLxmf.append entry).entries.length ≤ c.pendingLxmfMax := by
        rw [Queue.append, length_append]
        exact hroom rfl
      refine h.ofPending hlen h.pendingEvicts (fun _ _ hloop => nomatch hloop)
        (fun pass hpass => ?_) fun hno => absurd rfl (hno _)
      obtain rfl := Loop.retrying.inj hpass
      exact ⟨hturned.putBack, fun _ => hlen⟩
  next => cases hs

/-! ## A deferral -/

theorem Turned.snoc {q q' : Queue β} {pass : Pass β} (h : Turned q pass)
    (hentries : q'.entries = q.entries ++ [entry]) (hnumber : entry.number = q.enqueued)
    (henqueued : q'.enqueued = q.enqueued + 1) : Turned q' { pass with deferred := true } := by
  obtain ⟨number, now, content⟩ := entry
  obtain rfl : number = q.enqueued := hnumber
  refine ⟨fun hput => ?_, fun hput => ?_, fun h => nomatch h⟩
  · rw [hentries, henqueued, ← append_assoc]
    exact (h.straight hput).snoc now content
  · obtain ⟨rest, back, new, hsplit, horder, hlen, -⟩ := h.turned hput
    refine ⟨rest, back, new ++ [⟨q.enqueued, now, content⟩], ?_, ?_, hlen, fun h => nomatch h⟩
    · rw [hentries, hsplit, append_assoc]
    · rw [henqueued, ← append_assoc]
      exact horder.snoc now content

/-- Where nothing was put back, the pass does not mind that the first entry is evicted. -/
theorem Turned.evict {q q' : Queue β} {pass : Pass β} (h : Turned q pass) (hput : pass.putBack = 0)
    {first : Entry β} {rest : List (Entry β)} (hq : q.entries = first :: rest)
    (hentries : q'.entries = rest ++ [entry]) (hnumber : entry.number = q.enqueued)
    (henqueued : q'.enqueued = q.enqueued + 1) : Turned q' { pass with deferred := true } := by
  obtain ⟨number, now, content⟩ := entry
  obtain rfl : number = q.enqueued := hnumber
  refine ⟨fun _ => ?_, fun hpos => absurd hput hpos.ne', fun h => nomatch h⟩
  have horder := h.straight hput
  rw [hq] at horder
  rw [hentries, henqueued, ← append_assoc]
  exact (horder.sublist ((sublist_cons_self first rest).append_left _)).snoc now content

/-- What is evicted is older than the rest, in a pass that has put nothing back or in none. -/
theorem Sound.pending_inOrder (h : Sound c s) (hput : ∀ pass ∈ s.loop.pass?, pass.putBack = 0) :
    InOrder s.pendingLxmf.entries s.pendingLxmf.enqueued := by
  by_cases hloop : ∃ pass, s.loop = .retrying pass
  · obtain ⟨pass, hloop⟩ := hloop
    exact ((h.pass pass hloop).1.straight (hput pass (by rw [hloop]; rfl))).sublist
      (sublist_append_right _ _)
  · exact h.pending fun pass hpass => hloop ⟨pass, hpass⟩

theorem Sound.enqueuePending (h : Sound c s) (hpos : 0 < c.pendingLxmfMax)
    (hput : ∀ pass ∈ s.loop.pass?, c.pendingLxmfMax ≤ s.pendingLxmf.entries.length →
      pass.putBack = 0) (now : ℚ) (content : ρ × τ) :
    ∃ q, s.pendingLxmf.enqueue c.pendingLxmfMax now content = some q ∧
      Sound c { s with pendingLxmf := q, loop := System.noteDeferral s.loop } := by
  obtain ⟨q, hq, henqueued, hcases⟩ := enqueue_cases hpos s.pendingLxmf now content
  refine ⟨q, hq, ?_⟩
  have hheld : ∀ held stage, System.noteDeferral s.loop = .holding held stage →
      s.loop = .holding held stage := fun held stage hloop => by
    cases hs : s.loop <;> rw [hs] at hloop <;> first | exact hloop | cases hloop
  have hno : (∀ pass, System.noteDeferral s.loop ≠ .retrying pass) →
      ∀ pass, s.loop ≠ .retrying pass := fun hno pass hloop =>
    hno { pass with deferred := true } (by rw [hloop]; rfl)
  rcases hcases with ⟨hroom, hentries, hevicted⟩ | ⟨first, rest, hsplit, hfull, hentries, hevicted⟩
  · refine h.ofPending ?_ ?_ hheld (fun pass hpass => ?_) fun hnone => ?_
    · rw [hentries, length_append, length_singleton]
      exact hroom
    · rw [Queue.EvictsOldest, hevicted]
      exact h.pendingEvicts
    · rcases hs : s.loop with _ | _ | _ | pass' <;> rw [hs] at hpass <;> try cases hpass
      exact ⟨(h.pass pass' hs).1.snoc hentries rfl henqueued, fun h => nomatch h⟩
    · rw [hentries, henqueued]
      exact (h.pending (hno hnone)).snoc now content
  · have hput := fun pass hpass => hput pass hpass hfull
    have horder := h.pending_inOrder hput
    rw [hsplit] at horder
    refine h.ofPending ?_ ?_ hheld (fun pass hpass => ?_) fun hnone => ?_
    · have := h.pendingLxmf
      rw [hsplit] at this
      rw [hentries, length_append, length_singleton]
      exact this
    · rw [Queue.EvictsOldest, hevicted]
      intro e he
      rcases mem_cons.1 he with rfl | he
      · exact (pairwise_cons.1 horder.sorted).1
      · exact h.pendingEvicts e he
    · rcases hs : s.loop with _ | _ | _ | pass' <;> rw [hs] at hpass <;> try cases hpass
      exact ⟨(h.pass pass' hs).1.evict (hput pass' (by rw [hs]; rfl)) hsplit hentries rfl henqueued,
        fun h => nomatch h⟩
    · rw [hentries, henqueued]
      exact (horder.sublist (sublist_cons_self first rest)).snoc now content

/-! ## The calls for the mesh -/

theorem Sound.attempt (h : Sound c s) {i : ℕ} {sent : Bool}
    (hs : s.next c (.attempt i sent) = some s') : Sound c s' := by
  rw [System.next] at hs
  split at hs
  next text attempted recipient remaining hget =>
    cases hs
    have hall := h.attempted _ (mem_of_getElem? hget)
    refine h.ofForwards fun f hf => ?_
    rcases mem_or_eq_of_mem_set hf with hf | rfl
    · exact .inl hf
    · exact .inr ⟨rfl, by rw [← hall, append_assoc]; rfl⟩
  next => cases hs

theorem Sound.defer (h : Sound c s) {i : ℕ} {now : ℚ} (hcareful : Careful c s (.defer i now))
    (hs : s.next c (.defer i now) = some s') : Sound c s' := by
  rw [System.next] at hs
  split at hs
  next text attempted remaining recipient hget =>
    cases hs
    have hall := h.attempted _ (mem_of_getElem? hget)
    obtain ⟨q, hq, hsound⟩ :=
      h.enqueuePending hcareful.1 hcareful.2 now (recipient, text)
    rw [System.deferBy, hq]
    refine hsound.ofForwards fun f hf => ?_
    rcases mem_or_eq_of_mem_set hf with hf | rfl
    · exact .inl hf
    · exact .inr ⟨rfl, hall⟩
  next => cases hs

/-! ## Runs -/

theorem dropWhile_sublist_cons {p : Entry α → Bool} {l rest : List (Entry α)} {entry : Entry α}
    (h : l.dropWhile p = entry :: rest) : (entry :: rest).Sublist l :=
  h ▸ dropWhile_sublist p

theorem Sound.take (h : Sound c s) {now : ℚ} (hs : s.next c (.take now) = some s') :
    Sound c s' := by
  rw [System.next] at hs
  split at hs
  next hloop =>
    have hno : ∀ pass, s.loop ≠ .retrying pass := fun pass hpass => by
      rw [hloop] at hpass
      cases hpass
    split at hs
    next hnil =>
      cases hs
      exact h.ofSend (Nat.zero_le _) rfl
        (fun held hheld => by rcases hheld with hheld | hheld | hheld <;> cases hheld)
        inOrder_nil hno fun _ hpass => nomatch hpass
    next entry rest hdrop =>
      cases hs
      have hsub := dropWhile_sublist_cons hdrop
      have hlen := hsub.length_le.trans h.sendQueue
      refine h.ofSend (Nat.le_of_succ_le hlen) rfl (fun held hheld => ?_)
        (h.sendOrder.sublist ((sublist_cons_self entry rest).trans hsub)) hno
        fun _ hpass => nomatch hpass
      have : held = entry := by
        rcases hheld with hheld | hheld | hheld <;> cases hheld
        rfl
      exact this ▸ h.sendOrder.sublist hsub
  next => cases hs

/-- The step lemma: a careful step keeps the queues sound. -/
theorem Sound.next (h : Sound c s) {event : Event α τ} (hcareful : Careful c s event)
    (hs : s.next c event = some s') : Sound c s' := by
  cases event with
  | enqueueLxmfSend content now => exact h.enqueueLxmfSend hcareful hs
  | forward text =>
    cases hs
    refine h.ofForwards fun f hf => ?_
    rcases mem_append.1 hf with hf | hf
    · exact .inl hf
    · obtain rfl := mem_singleton.1 hf
      exact .inr ⟨rfl, rfl⟩
  | attempt i sent => exact h.attempt hs
  | defer i now => exact h.defer hcareful hs
  | drain =>
    rw [System.next] at hs
    split at hs
    next hloop =>
      cases hs
      refine h.ofSend h.sendQueue rfl (fun held hheld => ?_) h.sendOrder (fun pass hpass => ?_)
        fun pass hpass => nomatch hpass
      · rcases hheld with hheld | hheld | hheld <;> cases hheld
      · rw [hloop] at hpass
        cases hpass
    next => cases hs
  | take now => exact h.take hs
  | checkRate allowed =>
    rw [System.next] at hs
    split at hs
    next entry hloop =>
      cases hs
      cases allowed with
      | true => exact h.goOn hloop (.inl ⟨_, rfl⟩)
      | false => exact h.requeue hloop hcareful
    next => cases hs
  | chooseInterface connected =>
    rw [System.next] at hs
    split at hs
    next entry hloop =>
      cases hs
      cases connected with
      | true => exact h.goOn hloop (.inl ⟨_, rfl⟩)
      | false => exact h.requeue hloop hcareful
    next => cases hs
  | sent started succeeded =>
    rw [System.next] at hs
    split at hs
    next entry hloop =>
      cases hs
      cases succeeded with
      | true => exact h.goOn hloop (.inr (.inl rfl))
      | false =>
        cases started with
        | true => exact h.goOn hloop (.inr (.inr rfl))
        | false => exact h.requeue hloop hcareful
    next => cases hs
  | retry now =>
    rw [System.next] at hs
    split at hs
    next hloop =>
      cases hs
      exact h.retry hloop now
    next => cases hs
  | retake => exact h.retake hs
  | reattempt sent => exact h.reattempt hcareful hs

theorem sound_empty (c : Config ρ) : Sound c ({} : System ρ τ α) where
  sendQueue := Nat.zero_le _
  pendingLxmf := Nat.zero_le _
  raised := rfl
  forwardRaised _ hf := nomatch hf
  sendEvicts _ he := nomatch he
  pendingEvicts _ he := nomatch he
  attempted _ hf := nomatch hf
  send _ hheld := by rcases hheld with hheld | hheld | hheld <;> cases hheld
  sendOrder := inOrder_nil
  pass _ hpass := nomatch hpass
  pending _ := inOrder_nil

/-- Two recipients, and queues of those sizes. -/
def small (sendQueueSize pendingLxmfSize : ℕ) : Config ℕ where
  sendQueueSize := .int sendQueueSize
  pendingLxmfSize := .int pendingLxmfSize
  recipients := [1, 2]

/-- A message reaches no recipient; the first deferral is retried in vain. -/
def retried : List (Event Unit Unit) :=
  [.forward (), .attempt 0 false, .defer 0 0, .attempt 0 false, .defer 0 1, .retry 2, .retake,
    .reattempt false, .retake, .reattempt true, .retake, .enqueueLxmfSend () 3, .drain, .take 3,
    .checkRate false]

/-- With a pending queue of size 0, the first recipient is not reached. -/
def refused : List (Event Unit Unit) := [.forward (), .attempt 0 false, .defer 0 0]

/-- The drain has taken an entry when another message is enqueued. -/
def overtaken : List (Event Unit Unit) :=
  [.enqueueLxmfSend () 0, .drain, .take 0, .enqueueLxmfSend () 0, .checkRate false]

/-- A message is deferred when the pass has put back an older one. -/
def displaced : List (Event Unit Unit) :=
  [.forward (), .attempt 0 false, .defer 0 0, .attempt 0 false, .defer 0 1, .retry 2, .retake,
    .reattempt false, .forward (), .attempt 1 false, .defer 1 3]

end ReticulumPi.Gateway.Queues
