import ReticulumPi.Lib.Custody
import ReticulumPi.Messaging.Outbound

/-!
# Queued messages are accounted for

A message with the status `queued` is always in one place: in one queue, or in the
hands of one call, which is about to put it into a queue, to offer it to the
adapter, or to give it its final status. A message that an adapter has accepted is
not in a queue and is not offered again.

A drain lets go of what it has in hand when an exception escapes from it: from
`is_available`, from the registration of a delivery, or from reading a reply that
is not what it should be. And pruning the history may delete a queued row.

* `Sound`: the invariant;
* `Sound.setProc`, `Sound.transfer`, `Sound.close`, …: the kinds of steps;
* `queued_kept`: the result.
-/

namespace ReticulumPi.Messaging

open Custody List

variable {settings : Settings} {s s' : System} {i : ℕ} {id b : ℕ} {st : Status}
  {message : Message} {now later : ℚ}

/-! ## Statuses -/

/-- The row is there and has the status `queued`. -/
def Store.IsQueued (store : Store) (id : ℕ) : Prop :=
  ∃ row ∈ store.rows.get? id, row.status = .queued
deriving Decidable

variable {store : Store}

/-- The ids of the rows are below the next one. -/
def Store.IdsBelow (store : Store) : Prop := ∀ id ∈ store.rows.keys, id < store.nextId

theorem Store.IsQueued.mem_keys (h : store.IsQueued id) : id ∈ store.rows.keys := by
  obtain ⟨row, hrow, -⟩ := h
  exact Dict.mem_keys.2 ⟨row, hrow⟩

/-- Some row gets another status. -/
theorem isQueued_set {row : Row} (hst : st ≠ .queued) :
    Store.IsQueued { store with rows := store.rows.set id { row with status := st } } b ↔
      store.IsQueued b ∧ b ≠ id := by
  rw [Store.IsQueued, Store.IsQueued, Dict.get?_set]
  by_cases hb : b = id
  · rw [if_pos hb]
    refine iff_of_false ?_ fun h => h.2 hb
    rintro ⟨row', hrow', hq⟩
    cases hrow'
    exact hst hq
  · rw [if_neg hb, and_iff_left hb]

theorem isQueued_updateStatus (hst : st ≠ .queued) :
    (store.updateStatus id st).IsQueued b ↔ store.IsQueued b ∧ b ≠ id := by
  rw [Store.updateStatus]
  split
  next hnone =>
    rw [iff_self_and]
    rintro ⟨row, hrow, -⟩ rfl
    rw [hnone] at hrow
    cases hrow
  next row hrow => exact isQueued_set hst

theorem isQueued_onDeliveryStatusUpdate (hst : st ≠ .queued) :
    (store.onDeliveryStatusUpdate id st).IsQueued b ↔ store.IsQueued b ∧ b ≠ id := by
  rw [Store.onDeliveryStatusUpdate]
  split_ifs
  · rw [Store.updateStatusUnlessTerminal]
    split
    next hnone =>
      rw [iff_self_and]
      rintro ⟨row, hrow, -⟩ rfl
      rw [hnone] at hrow
      cases hrow
    next row hrow =>
      split_ifs with hterminal
      · -- A terminal status is not `queued`.
        rw [iff_self_and]
        rintro ⟨row', hrow', hq⟩ rfl
        rw [hrow, Option.mem_some_iff] at hrow'
        rw [hrow', hq] at hterminal
        exact absurd hterminal (by decide)
      · exact isQueued_set hst
  · exact isQueued_updateStatus hst

theorem keys_set_of_mem {row : Row} (h : id ∈ store.rows.keys) :
    b ∈ (store.rows.set id row).keys ↔ b ∈ store.rows.keys := by
  rw [Dict.mem_keys_set, or_iff_right_of_imp]
  rintro rfl
  exact h

theorem idsBelow_updateStatus (h : store.IdsBelow) : (store.updateStatus id st).IdsBelow := by
  rw [Store.updateStatus]
  split
  next => exact h
  next row hrow =>
    intro b hb
    exact h b ((keys_set_of_mem (Dict.mem_keys.2 ⟨row, hrow⟩)).1 hb)

theorem idsBelow_onDeliveryStatusUpdate (h : store.IdsBelow) :
    (store.onDeliveryStatusUpdate id st).IdsBelow := by
  rw [Store.onDeliveryStatusUpdate]
  split_ifs
  · rw [Store.updateStatusUnlessTerminal]
    split
    next => exact h
    next row hrow =>
      split_ifs
      · exact h
      · intro b hb
        exact h b ((keys_set_of_mem (Dict.mem_keys.2 ⟨row, hrow⟩)).1 hb)
  · exact idsBelow_updateStatus h

theorem nextId_updateStatus : (store.updateStatus id st).nextId = store.nextId := by
  rw [Store.updateStatus]
  split
  · rfl
  · rfl

theorem nextId_onDeliveryStatusUpdate :
    (store.onDeliveryStatusUpdate id st).nextId = store.nextId := by
  rw [Store.onDeliveryStatusUpdate]
  split_ifs
  · rw [Store.updateStatusUnlessTerminal]
    split
    · rfl
    · split_ifs
      · rfl
      · rfl
  · exact nextId_updateStatus

theorem isQueued_insert (h : store.IdsBelow) :
    (store.insert message st now).IsQueued b ↔
      store.IsQueued b ∨ (b = store.nextId ∧ st = .queued) := by
  rw [Store.IsQueued, Store.insert]
  dsimp only
  rw [Dict.get?_set]
  by_cases hb : b = store.nextId
  · rw [if_pos hb, or_iff_right, and_iff_right hb]
    · simp
    · intro hq
      exact absurd (h b hq.mem_keys) (by omega)
  · rw [if_neg hb, or_iff_left (fun hn => hb hn.1)]
    rfl

theorem idsBelow_insert (h : store.IdsBelow) : (store.insert message st now).IdsBelow := by
  intro b hb
  change b < store.nextId + 1
  rcases Dict.mem_keys_set.1 hb with rfl | hb
  · exact Nat.lt_succ_self _
  · exact (h b hb).trans (Nat.lt_succ_self _)

theorem isQueued_prune {limit : ℕ} (h : ∀ id ∈ store.victims limit, ¬ store.IsQueued id) :
    (store.prune limit).IsQueued b ↔ store.IsQueued b := by
  rw [Store.prune]
  split_ifs with hzero
  · rfl
  · rw [Store.IsQueued, Store.IsQueued]
    dsimp only
    rw [Dict.get?_select]
    constructor
    · rintro ⟨row, hrow, hq⟩
      exact ⟨row, (Option.filter_eq_some_iff.1 hrow).1, hq⟩
    · rintro ⟨row, hrow, hq⟩
      refine ⟨row, Option.filter_eq_some_iff.2 ⟨hrow, decide_eq_true fun hmem => ?_⟩, hq⟩
      exact h b hmem ⟨row, hrow, hq⟩

theorem idsBelow_prune {limit : ℕ} (h : store.IdsBelow) :
    (store.prune limit).IdsBelow ∧ (store.prune limit).nextId = store.nextId := by
  rw [Store.prune]
  split_ifs
  · exact ⟨h, rfl⟩
  · refine ⟨fun b hb => ?_, rfl⟩
    obtain ⟨row, hrow⟩ := Dict.mem_keys.1 hb
    rw [Dict.get?_select] at hrow
    exact h b (Dict.mem_keys.2 ⟨row, (Option.filter_eq_some_iff.1 hrow).1⟩)

/-! ## Who has a message in hand -/

def ids (l : List Entry) : List ℕ := l.map (·.msgId)

/-- The queued messages that a call has in hand. -/
def Proc.held : Proc → List ℕ
  | .pushing entry | .evicting entry => [entry.msgId]
  | .looking _ l | .failing l | .looping _ l | .tracking _ l | .flushing _ l | .expiring l => ids l
  | .checking _ item rest | .retrying _ item rest | .closing _ item rest _ => ids (item :: rest)
  | _ => []

/-- Those of them that no adapter has accepted. -/
def Proc.unsent : Proc → List ℕ
  | .closing _ _ rest .sent => ids rest
  | proc => proc.held

/-- The message whose last status a call is about to settle. -/
def Proc.final : Proc → Option ℕ
  | .settling id _ _ | .registering id _ => some id
  | _ => none

/-- What may have messages in hand: the queue of a transport, or a call. -/
inductive Holder where
  | queue (transport : String)
  | call (i : ℕ)
deriving DecidableEq

def heldBy (proc : Option Proc) : List ℕ := (proc.map Proc.held).getD []

def unsentBy (proc : Option Proc) : List ℕ := (proc.map Proc.unsent).getD []

def System.hands (s : System) : Holder → List ℕ
  | .queue transport => ids (s.queue transport)
  | .call i => heldBy (s.procs i)

def System.unsent (s : System) : Holder → List ℕ
  | .queue transport => ids (s.queue transport)
  | .call i => unsentBy (s.procs i)

theorem unsentBy_subset (proc : Option Proc) : unsentBy proc ⊆ heldBy proc := by
  rcases proc with _ | proc
  · exact Subset.refl _
  · change proc.unsent ⊆ proc.held
    rw [Proc.unsent.eq_def]
    split
    · exact subset_cons_self _ _
    · exact Subset.refl _

/-- The message was stored, and is not queued. -/
def Store.IsFinal (store : Store) (id : ℕ) : Prop := id < store.nextId ∧ ¬ store.IsQueued id

/-- Every queued message is in one hand, and what an adapter has accepted is not
    offered again. -/
structure Sound (s : System) : Prop where
  idsBelow : s.store.IdsBelow
  exclusive : Exclusive s.hands
  queued : ∀ id, s.store.IsQueued id ↔ Held s.hands id
  once : s.accepted.Nodup
  below : ∀ id ∈ s.accepted, id < s.store.nextId
  gone : ∀ id ∈ s.accepted, ¬ Held s.unsent id
  final : ∀ i proc, s.procs i = some proc → ∀ id ∈ proc.final, s.store.IsFinal id

section Hands

variable {proc : Option Proc} {transport : String} {q : List Entry} {h : Holder}

theorem hands_setProc :
    (s.setProc i proc).hands h = if h = .call i then heldBy proc else s.hands h := by
  rcases h with t | j
  · rfl
  · change heldBy (Function.update s.procs i proc j) = _
    rw [Function.update_apply]
    by_cases hj : j = i
    · rw [if_pos hj, if_pos (congrArg Holder.call hj)]
    · rw [if_neg hj, if_neg fun heq => hj (Holder.call.inj heq)]
      rfl

theorem unsent_setProc :
    (s.setProc i proc).unsent h = if h = .call i then unsentBy proc else s.unsent h := by
  rcases h with t | j
  · rfl
  · change unsentBy (Function.update s.procs i proc j) = _
    rw [Function.update_apply]
    by_cases hj : j = i
    · rw [if_pos hj, if_pos (congrArg Holder.call hj)]
    · rw [if_neg hj, if_neg fun heq => hj (Holder.call.inj heq)]
      rfl

theorem queue_setQueue {t : String} :
    (s.setQueue transport q).queue t = if t = transport then q else s.queue t := by
  change ((s.queues.set transport q).get? t).getD [] = _
  rw [Dict.get?_set]
  split_ifs
  · rfl
  · rfl

theorem hands_setQueue :
    (s.setQueue transport q).hands h = if h = .queue transport then ids q else s.hands h := by
  rcases h with t | j
  · change ids ((s.setQueue transport q).queue t) = _
    rw [queue_setQueue]
    by_cases ht : t = transport
    · rw [if_pos ht, if_pos (congrArg Holder.queue ht)]
    · rw [if_neg ht, if_neg fun heq => ht (Holder.queue.inj heq)]
      rfl
  · rfl

theorem unsent_setQueue :
    (s.setQueue transport q).unsent h = if h = .queue transport then ids q else s.unsent h := by
  rcases h with t | j
  · change ids ((s.setQueue transport q).queue t) = _
    rw [queue_setQueue]
    by_cases ht : t = transport
    · rw [if_pos ht, if_pos (congrArg Holder.queue ht)]
    · rw [if_neg ht, if_neg fun heq => ht (Holder.queue.inj heq)]
      rfl
  · rfl

theorem hands_call {old : Option Proc} (hold : s.procs i = old) :
    s.hands (.call i) = heldBy old := congrArg heldBy hold

theorem mem_unsent_call {old : Option Proc} (hold : s.procs i = old) (hb : b ∈ unsentBy old) :
    Held s.unsent b :=
  ⟨.call i, by change b ∈ unsentBy (s.procs i); rwa [hold]⟩

theorem procs_setProc {j : ℕ} :
    (s.setProc i proc).procs j = if j = i then proc else s.procs j :=
  Function.update_apply _ _ _ _

end Hands

/-! ## The kinds of steps -/

variable {old : Option Proc} {proc : Option Proc}

variable (hs : Sound s)
include hs

/-- What a step makes of the messages that calls settle: none is queued. -/
theorem Sound.final_setProc (hstore : ∀ id, s.store.IsFinal id → s'.store.IsFinal id)
    (hproc : ∀ p, proc = some p → ∀ id ∈ p.final, s'.store.IsFinal id)
    (hprocs : s'.procs = s.procs) :
    ∀ j p, (s'.setProc i proc).procs j = some p → ∀ id ∈ p.final,
      (s'.setProc i proc).store.IsFinal id := by
  intro j p hp id hid
  rw [procs_setProc] at hp
  split_ifs at hp
  · exact hproc p hp id hid
  · rw [hprocs] at hp
    exact hstore id (hs.final j p hp id hid)

/-- A call goes on with the same messages in hand. -/
theorem Sound.setProc (hold : s.procs i = old) (hheld : heldBy proc = heldBy old)
    (hunsent : unsentBy proc ⊆ unsentBy old)
    (hfinal : ∀ p, proc = some p → ∀ id ∈ p.final, s.store.IsFinal id) :
    Sound (s.setProc i proc) := by
  have hhands : (s.setProc i proc).hands = s.hands := funext fun h => by
    rw [hands_setProc]
    split_ifs with heq
    · rw [heq, hheld, hands_call hold]
    · rfl
  refine ⟨hs.idsBelow, hhands ▸ hs.exclusive, hhands ▸ hs.queued, hs.once, hs.below, ?_,
    hs.final_setProc (fun _ => id) hfinal rfl⟩
  rintro id hid ⟨h, hh⟩
  rw [unsent_setProc] at hh
  split_ifs at hh with heq
  · exact hs.gone id hid (mem_unsent_call hold (hunsent hh))
  · exact hs.gone id hid ⟨h, hh⟩

/-- A call and a queue exchange messages. -/
theorem Sound.transfer {transport : String} {q : List Entry} (hold : s.procs i = old)
    (hperm : (ids q ++ heldBy proc).Perm (ids (s.queue transport) ++ heldBy old))
    (hunsent : ∀ b, b ∈ ids q ∨ b ∈ unsentBy proc →
      b ∈ ids (s.queue transport) ∨ b ∈ unsentBy old)
    (hfinal : ∀ p, proc = some p → p.final = none) :
    Sound ((s.setQueue transport q).setProc i proc) := by
  have hhands : ∀ h, ((s.setQueue transport q).setProc i proc).hands h =
      if h = .call i then heldBy proc else if h = .queue transport then ids q else s.hands h :=
    fun h => by rw [hands_setProc, hands_setQueue]
  have hqueue : ((s.setQueue transport q).setProc i proc).hands (.queue transport) = ids q := by
    rw [hhands, if_neg (by simp), if_pos rfl]
  have hcall : ((s.setQueue transport q).setProc i proc).hands (.call i) = heldBy proc := by
    rw [hhands, if_pos rfl]
  have hne : Holder.queue transport ≠ .call i := by simp
  obtain ⟨hexclusive, hheld⟩ : Exclusive ((s.setQueue transport q).setProc i proc).hands ∧
      ∀ b, Held ((s.setQueue transport q).setProc i proc).hands b ↔ Held s.hands b := by
    refine hs.exclusive.pass hne ?_ fun k hkq hkc => ?_
    · rw [hqueue, hcall, hands_call hold]
      exact hperm
    · rw [hhands, if_neg hkc, if_neg hkq]
  refine ⟨hs.idsBelow, hexclusive, fun b => (hs.queued b).trans (hheld b).symm, hs.once, hs.below,
    ?_, hs.final_setProc (fun _ => id) (fun p hp id hid => ?_) rfl⟩
  · rintro b hb ⟨h, hh⟩
    rw [unsent_setProc, unsent_setQueue] at hh
    split_ifs at hh with hcall hqueue
    · rcases hunsent b (.inr hh) with hb' | hb'
      · exact hs.gone b hb ⟨.queue transport, hb'⟩
      · exact hs.gone b hb (mem_unsent_call hold hb')
    · rcases hunsent b (.inl hh) with hb' | hb'
      · exact hs.gone b hb ⟨.queue transport, hb'⟩
      · exact hs.gone b hb (mem_unsent_call hold hb')
    · exact hs.gone b hb ⟨h, hh⟩
  · rw [hfinal p hp] at hid
    cases hid

/-- A call gives a message in its hand another status, and lets it go. -/
theorem Sound.close (hold : s.procs i = old) (hst : st ≠ .queued)
    (hheld : heldBy old = id :: heldBy proc) (hunsent : unsentBy proc ⊆ unsentBy old)
    (hfinal : ∀ p, proc = some p → p.final = none) :
    Sound ((s.setStatus id st).setProc i proc) := by
  have hqueued : ∀ b, ((s.setStatus id st).setProc i proc).store.IsQueued b ↔
      s.store.IsQueued b ∧ b ≠ id := fun b => isQueued_onDeliveryStatusUpdate hst
  have hhands : ∀ h, ((s.setStatus id st).setProc i proc).hands h =
      if h = .call i then heldBy proc else s.hands h := fun h => hands_setProc
  obtain ⟨hexclusive, hdrop⟩ : Exclusive ((s.setStatus id st).setProc i proc).hands ∧
      ∀ b, Held ((s.setStatus id st).setProc i proc).hands b ↔ Held s.hands b ∧ b ≠ id := by
    refine hs.exclusive.drop (i := .call i) ?_ fun k hk => ?_
    · rw [hhands, if_pos rfl, hands_call hold, hheld]
    · rw [hhands, if_neg hk]
  have hnext : ((s.setStatus id st).setProc i proc).store.nextId = s.store.nextId :=
    nextId_onDeliveryStatusUpdate
  refine ⟨idsBelow_onDeliveryStatusUpdate hs.idsBelow, hexclusive, fun b => ?_, hs.once,
    fun b hb => hnext ▸ hs.below b hb, ?_, hs.final_setProc (fun b hb => ?_) (fun p hp b hb => ?_) rfl⟩
  · rw [hqueued, hdrop, hs.queued]
  · rintro b hb ⟨h, hh⟩
    rw [unsent_setProc] at hh
    split_ifs at hh with heq
    · exact hs.gone b hb (mem_unsent_call hold (hunsent hh))
    · exact hs.gone b hb ⟨h, hh⟩
  · exact ⟨hnext ▸ hb.1, fun hq => hb.2 ((hqueued b).1 hq).1⟩
  · rw [hfinal p hp] at hb
    cases hb

/-- A message is stored as queued, in the hand of the call. -/
theorem Sound.storeQueued (hold : s.procs i = some (.storing message)) :
    Sound (s.storeQueued i message now later) := by
  set s' := s.storeQueued i message now later with hs'
  have hqueued : ∀ b, s'.store.IsQueued b ↔ s.store.IsQueued b ∨ b = s.store.nextId := fun b => by
    change (s.store.insert message .queued now).IsQueued b ↔ _
    rw [isQueued_insert hs.idsBelow, and_iff_left rfl]
  have hhands : ∀ h, s'.hands h = if h = .call i then [s.store.nextId] else s.hands h :=
    fun h => hands_setProc
  have hunsent : ∀ h, s'.unsent h = if h = .call i then [s.store.nextId] else s.unsent h :=
    fun h => unsent_setProc
  have hfree : ¬ Held s.hands s.store.nextId := fun hheld =>
    (hs.idsBelow _ ((hs.queued _).2 hheld).mem_keys).false
  obtain ⟨hexclusive, hgain⟩ : Exclusive s'.hands ∧
      ∀ b, Held s'.hands b ↔ Held s.hands b ∨ b = s.store.nextId := by
    refine hs.exclusive.gain (i := .call i) hfree ?_ fun k hk => ?_
    · rw [hhands, if_pos rfl, hands_call hold]
      exact List.Perm.refl _
    · rw [hhands, if_neg hk]
  refine ⟨idsBelow_insert hs.idsBelow, hexclusive, fun b => ?_, hs.once,
    fun b hb => (hs.below b hb).trans (Nat.lt_succ_self _), ?_, ?_⟩
  · rw [hqueued, hgain, hs.queued]
  · rintro b hb ⟨h, hh⟩
    rw [hunsent] at hh
    split_ifs at hh with heq
    · rw [mem_singleton.1 hh] at hb
      exact (hs.below _ hb).false
    · exact hs.gone b hb ⟨h, hh⟩
  · intro j p hp b hb
    rw [hs', System.storeQueued, procs_setProc] at hp
    split_ifs at hp
    · cases hp
      cases hb
    · obtain ⟨hlt, hnot⟩ := hs.final j p hp b hb
      refine ⟨hlt.trans (Nat.lt_succ_self _), fun hq => ?_⟩
      rcases (hqueued b).1 hq with hq | rfl
      · exact hnot hq
      · exact hlt.false

/-- A message that has been offered is stored with its last status. -/
theorem Sound.storeFinal {sent : Bool} (hold : s.procs i = some (.finalizing message sent)) :
    Sound (s.storeFinal i message sent now) := by
  set s' := s.storeFinal i message sent now with hs'
  have hqueued : ∀ b, s'.store.IsQueued b ↔ s.store.IsQueued b := fun b => by
    change (s.store.insert message (if sent then .sent else .failed) now).IsQueued b ↔ _
    rw [isQueued_insert hs.idsBelow, or_iff_left]
    rintro ⟨-, hst⟩
    split_ifs at hst
  have hhands : s'.hands = s.hands := funext fun h => by
    have hcall : s'.hands h = if h = .call i then [] else s.hands h := hands_setProc
    rw [hcall]
    split_ifs with heq
    · rw [heq, hands_call hold]
      rfl
    · rfl
  have hunsent : ∀ h, s'.unsent h ⊆ s.unsent h := fun h b hb => by
    have hcall : s'.unsent h = if h = .call i then [] else s.unsent h := unsent_setProc
    rw [hcall] at hb
    split_ifs at hb
    · cases hb
    · exact hb
  have hfresh : ¬ Held s.unsent s.store.nextId := by
    rintro ⟨h, hh⟩
    have hheld : Held s.hands s.store.nextId := ⟨h, by
      rcases h with t | j
      · exact hh
      · exact unsentBy_subset _ hh⟩
    exact (hs.idsBelow _ ((hs.queued _).2 hheld).mem_keys).false
  have haccepted : s'.accepted = (if sent then [s.store.nextId] else []) ++ s.accepted := by
    rw [hs']
    cases sent
    · rfl
    · rfl
  have hnew : ∀ b ∈ s'.accepted, b = s.store.nextId ∨ b ∈ s.accepted := fun b hb => by
    rw [haccepted, mem_append] at hb
    refine hb.imp_left fun hb => ?_
    split_ifs at hb
    · exact mem_singleton.1 hb
    · cases hb
  refine ⟨idsBelow_insert hs.idsBelow, hhands ▸ hs.exclusive,
    fun b => by rw [hqueued, hhands, hs.queued], ?_, fun b hb => ?_, ?_, fun j p hp b hb => ?_⟩
  · rw [haccepted]
    split_ifs
    · exact nodup_cons.2 ⟨fun hmem => (hs.below _ hmem).false, hs.once⟩
    · exact hs.once
  · rcases hnew b hb with rfl | hb
    · exact Nat.lt_succ_self _
    · exact (hs.below b hb).trans (Nat.lt_succ_self _)
  · rintro b hb ⟨h, hh⟩
    rcases hnew b hb with rfl | hb
    · exact hfresh ⟨h, hunsent h hh⟩
    · exact hs.gone b hb ⟨h, hunsent h hh⟩
  · have hprocs : s'.procs j = if j = i then some (.settling s.store.nextId message sent)
        else s.procs j := procs_setProc
    rw [hprocs] at hp
    split_ifs at hp
    · cases hp
      cases hb
      refine ⟨Nat.lt_succ_self _, fun hq => ?_⟩
      exact (hs.idsBelow _ ((hqueued _).1 hq).mem_keys).false
    · obtain ⟨hlt, hnot⟩ := hs.final j p hp b hb
      exact ⟨hlt.trans (Nat.lt_succ_self _), fun hq => hnot ((hqueued b).1 hq)⟩

omit hs

/-- The history is pruned without harm to the queued messages. -/
theorem Sound.store_eq {lastPrune : ℚ} (hs : Sound s)
    (hqueued : ∀ b, store.IsQueued b ↔ s.store.IsQueued b) (hbelow : store.IdsBelow)
    (hnext : store.nextId = s.store.nextId) :
    Sound { s with store, lastPrune } where
  idsBelow := hbelow
  exclusive := hs.exclusive
  queued b := (hqueued b).trans (hs.queued b)
  once := hs.once
  below b hb := hnext ▸ hs.below b hb
  gone := hs.gone
  final j p hp b hb := ⟨hnext ▸ (hs.final j p hp b hb).1, fun hq =>
    (hs.final j p hp b hb).2 ((hqueued b).1 hq)⟩

/-- An adapter accepts the message that a drain offers it. -/
theorem Sound.accept {drain : Drain} {item : Entry} {rest : List Entry} (hs : Sound s)
    (hold : s.procs i = some (.retrying drain item rest)) :
    Sound ({ s with accepted := item.msgId :: s.accepted }.setProc i
      (some (.closing drain item rest .sent))) := by
  have hitem : item.msgId ∈ s.unsent (.call i) := by
    change item.msgId ∈ unsentBy (s.procs i)
    rw [hold]
    exact mem_cons_self
  have hhands : ∀ h, ({ s with accepted := item.msgId :: s.accepted }.setProc i
      (some (.closing drain item rest .sent))).hands h = s.hands h := fun h => by
    rw [hands_setProc]
    split_ifs with heq
    · rw [heq, hands_call hold]
      rfl
    · rfl
  have hhands := funext hhands
  have hheld : Held s.hands item.msgId := ⟨.call i, by
    rw [hands_call hold]
    exact mem_cons_self⟩
  refine ⟨hs.idsBelow, hhands ▸ hs.exclusive, hhands ▸ hs.queued, ?_, fun b hb => ?_, ?_,
    hs.final_setProc (fun _ => id) (fun p hp b hb => ?_) rfl⟩
  · exact nodup_cons.2 ⟨fun hmem => hs.gone _ hmem ⟨_, hitem⟩, hs.once⟩
  · rcases mem_cons.1 hb with rfl | hb
    · exact hs.idsBelow _ ((hs.queued _).2 hheld).mem_keys
    · exact hs.below b hb
  · rintro b hb ⟨h, hh⟩
    rw [unsent_setProc] at hh
    rcases mem_cons.1 hb with rfl | hb
    · -- It is in the hand of this call only, and only once.
      have hnodup : (ids (item :: rest)).Nodup := by
        have hn := hs.exclusive.nodup (.call i)
        rwa [hands_call hold] at hn
      split_ifs at hh with heq
      · exact (nodup_cons.1 hnodup).1 hh
      · refine heq (hs.exclusive.holder h (.call i) item.msgId ?_ ?_)
        · rcases h with t | j
          · exact hh
          · exact unsentBy_subset _ hh
        · rw [hands_call hold]
          exact mem_cons_self
    · split_ifs at hh with heq
      · exact hs.gone b hb (mem_unsent_call hold (mem_cons_of_mem _ hh))
      · exact hs.gone b hb ⟨h, hh⟩
  · cases Option.some.inj hp
    cases hb

/-- An expiry takes what is old from every queue. -/
theorem Sound.beginExpire (hs : Sound s) (hold : s.procs i = none) :
    Sound (s.beginExpire settings i now) := by
  set s' := s.beginExpire settings i now with hs'
  set isOld : Entry → Bool := fun e => settings.outboundMaxAge < now - e.queuedAt with hisOld
  set taken := s.queues.values.flatMap (List.filter isOld) with htaken
  have hqueue : ∀ t, s'.queue t = (s.queue t).filter (!isOld ·) := fun t => by
    change ((s.queues.map fun q : List Entry => q.filter (!isOld ·)).get? t).getD [] = _
    rw [Dict.get?_map, System.queue]
    rcases s.queues.get? t with _ | q
    · rfl
    · rfl
  have hkept : ∀ t, s'.hands (.queue t) = ids ((s.queue t).filter (!isOld ·)) := fun t =>
    congrArg ids (hqueue t)
  have hcall : s'.hands (.call i) = ids taken := by
    have h : s'.hands (.call i) = if Holder.call i = .call i then ids taken else _ := hands_setProc
    rw [h, if_pos rfl]
  have hother : ∀ j, j ≠ i → s'.hands (.call j) = s.hands (.call j) := fun j hj => by
    have h : s'.hands (.call j) = if Holder.call j = .call i then ids taken
        else s.hands (.call j) := hands_setProc
    rw [h, if_neg fun heq => hj (Holder.call.inj heq)]
  -- What is in the same queue, or in two, has different ids.
  have hunique : ∀ t e t' e', e ∈ s.queue t → e' ∈ s.queue t' → e.msgId = e'.msgId →
      t = t' ∧ e = e' := by
    intro t e t' e' he he' heq
    have ht := hs.exclusive.holder (.queue t) (.queue t') e.msgId (List.mem_map_of_mem he)
      (heq ▸ List.mem_map_of_mem he')
    obtain rfl := Holder.queue.inj ht
    exact ⟨rfl, inj_on_of_nodup_map (hs.exclusive.nodup (.queue t)) he he' heq⟩
  have hmem : ∀ e, e ∈ taken ↔ ∃ t, e ∈ s.queue t ∧ isOld e = true := fun e => by
    rw [htaken, mem_flatMap]
    constructor
    · rintro ⟨q, hq, he⟩
      obtain ⟨t, ht⟩ := Dict.mem_values.1 hq
      refine ⟨t, ?_, (mem_filter.1 he).2⟩
      rw [System.queue, ht]
      exact (mem_filter.1 he).1
    · rintro ⟨t, he, hold⟩
      rw [System.queue] at he
      rcases hq : s.queues.get? t with _ | q
      · rw [hq] at he
        cases he
      · rw [hq] at he
        exact ⟨q, Dict.mem_values.2 ⟨t, hq⟩, mem_filter.2 ⟨he, hold⟩⟩
  obtain ⟨hexclusive, hheld⟩ : Exclusive s'.hands ∧ ∀ b, Held s'.hands b ↔ Held s.hands b := by
    refine hs.exclusive.gather (i := .call i) (hands_call hold) (fun k hk => ?_) ?_ fun b => ?_
    · rcases k with t | j
      · rw [hkept]
        exact filter_sublist.map _
      · rw [hother j fun heq => hk (congrArg Holder.call heq)]
    · rw [hcall]
      refine Nodup.map_on (fun e he e' he' heq => ?_) (List.nodup_flatMap.2 ⟨?_, ?_⟩)
      · obtain ⟨t, he, -⟩ := (hmem e).1 he
        obtain ⟨t', he', -⟩ := (hmem e').1 he'
        exact (hunique t e t' e' he he' heq).2
      · intro q hq
        obtain ⟨t, ht⟩ := Dict.mem_values.1 hq
        have hnodup := hs.exclusive.nodup (.queue t)
        rw [System.hands, System.queue, ht] at hnodup
        exact (Nodup.of_map _ hnodup).filter _
      · -- The queues of two transports have nothing in common.
        rw [Dict.values, pairwise_map]
        have hkeys := pairwise_map.1 s.queues.nodup
        refine hkeys.imp_of_mem fun {x y} hx hy hne e hex hey => ?_
        have hqueue : ∀ z ∈ s.queues.entries, s.queue z.1 = z.2 := fun z hz => by
          rw [System.queue, Dict.get?_eq_some_iff.2 hz]
          rfl
        refine hne (hunique x.1 e y.1 e ?_ ?_ rfl).1
        · rw [hqueue x hx]
          exact (mem_filter.1 hex).1
        · rw [hqueue y hy]
          exact (mem_filter.1 hey).1
    · rw [hcall, ids, List.mem_map]
      constructor
      · rintro ⟨e, he, rfl⟩
        obtain ⟨t, het, hisold⟩ := (hmem e).1 he
        refine ⟨.queue t, by simp, List.mem_map_of_mem het, fun hkept' => ?_⟩
        rw [hkept] at hkept'
        obtain ⟨e', he', heq⟩ := List.mem_map.1 hkept'
        obtain ⟨he', hnew⟩ := mem_filter.1 he'
        rw [(hunique t e' t e he' het heq).2, hisold] at hnew
        cases hnew
      · rintro ⟨k, hk, hb, hgone⟩
        rcases k with t | j
        · obtain ⟨e, he, rfl⟩ := List.mem_map.1 hb
          refine ⟨e, (hmem e).2 ⟨t, he, ?_⟩, rfl⟩
          by_contra hnew
          refine hgone ?_
          rw [hkept]
          exact List.mem_map_of_mem (mem_filter.2 ⟨he, by simpa using hnew⟩)
        · rw [hother j fun heq => hk (congrArg Holder.call heq)] at hgone
          exact absurd hb hgone
  refine ⟨hs.idsBelow, hexclusive, fun b => (hs.queued b).trans (hheld b).symm, hs.once, hs.below,
    ?_, hs.final_setProc (fun _ => id) (fun p hp b hb => ?_) rfl⟩
  · rintro b hb ⟨h, hh⟩
    rcases h with t | j
    · refine hs.gone b hb ⟨.queue t, ?_⟩
      change b ∈ ids (s'.queue t) at hh
      rw [hqueue] at hh
      exact (filter_sublist.map _).subset hh
    · have h : s'.unsent (.call j) = if Holder.call j = .call i then ids taken
          else s.unsent (.call j) := unsent_setProc
      rw [h] at hh
      split_ifs at hh
      · obtain ⟨e, he, rfl⟩ := List.mem_map.1 hh
        obtain ⟨t, het, -⟩ := (hmem e).1 he
        exact hs.gone _ hb ⟨.queue t, List.mem_map_of_mem het⟩
      · exact hs.gone b hb ⟨.call j, hh⟩
  · cases Option.some.inj hp
    cases hb

/-! ## Runs -/

/-- Pruning deletes no queued message. -/
def System.PrunesNone (settings : Settings) (s : System) (now : ℚ) : Bool :=
  settings.historyLimit = 0 || now - s.lastPrune < 30 ||
    (s.store.victims settings.historyLimit).all fun id => ¬ s.store.IsQueued id

/-- No exception escapes from a drain that has messages in hand, no message is put
    into a queue that can hold none, and no queued message is pruned. -/
def harmless (settings : Settings) (s : System) : Proc → Input → Bool
  | .checking _ _ _, .available none => false
  | .retrying _ _ _, .reply .invalid => false
  | .retrying _ _ _, .reply (.result false none) => false
  | .tracking _ rest, .tracked ok _ => ok || rest.isEmpty
  | .pushing entry, .tick _ _ =>
    0 < settings.outboundQueueMax || !(s.queue entry.message.transport).isEmpty
  | .settling _ _ _, .tick now _ => s.PrunesNone settings now
  | .pruning, .tick now _ => s.PrunesNone settings now
  | _, _ => true

/-- The step does no harm to the messages in hand. -/
def Harmless (settings : Settings) (s : System) : Event → Prop
  | .step i input => ∀ proc ∈ s.procs i, harmless settings s proc input = true
  | _ => True

theorem Sound.maybePrune (hs : Sound s) (h : s.PrunesNone settings now = true) :
    Sound (s.maybePrune settings now) := by
  rw [System.maybePrune]
  split_ifs with hnone
  · exact hs
  · obtain ⟨hbelow, hnext⟩ : (s.store.prune settings.historyLimit).IdsBelow ∧
        (s.store.prune settings.historyLimit).nextId = s.store.nextId :=
      idsBelow_prune hs.idsBelow
    refine hs.store_eq (fun b => isQueued_prune fun id hid => ?_) hbelow hnext
    rw [System.PrunesNone, Bool.or_eq_true, Bool.or_eq_true, decide_eq_true_iff,
      decide_eq_true_iff, or_iff_right hnone, List.all_eq_true] at h
    exact of_decide_eq_true (h id hid)

theorem Sound.push {entry : Entry} (hs : Sound s) (hold : s.procs i = some (.pushing entry))
    (h : harmless settings s (.pushing entry) (.tick now later) = true) :
    Sound (s.push settings i entry) := by
  rw [System.push]
  split_ifs with hfull
  · split
    next hempty =>
      -- There is room for one message at least.
      have h : 0 < settings.outboundQueueMax ∨ ¬ (s.queue entry.message.transport) = [] := by
        simpa [harmless] using h
      rw [hempty, length_nil] at hfull
      rcases h with h | h
      · exact absurd hfull (by simpa using h)
      · exact absurd hempty h
    next evicted q hq =>
      refine hs.transfer hold ?_ ?_ ?_
      · rw [hq, ids, ids, map_append]
        refine perm_iff_count.2 fun b => ?_
        simp only [heldBy, Proc.held, Option.map_some, Option.getD_some, map_cons,
          map_nil, count_append, count_cons, count_nil]
        omega
      · intro b hb
        rw [hq]
        simpa [ids, unsentBy, Proc.unsent, Proc.held, or_comm, or_left_comm] using hb
      · rintro p hp
        cases Option.some.inj hp
        rfl
  · refine hs.transfer hold ?_ ?_ ?_
    · rw [ids, map_append]
      simp [heldBy, Proc.held, ids]
    · intro b hb
      simpa [ids, unsentBy, Proc.unsent, Proc.held, or_comm, or_left_comm] using hb
    · rintro p hp
      cases hp

section Advance

variable {drain : Drain} {item : Entry} {rest pending : List Entry}

variable (hs : Sound s)
include hs

/-- A call goes on to a stretch in which it settles nothing. -/
theorem Sound.goOn (hold : s.procs i = old) (hheld : heldBy proc = heldBy old)
    (hunsent : unsentBy proc ⊆ unsentBy old) (hfinal : ∀ p, proc = some p → p.final = none) :
    Sound (s.setProc i proc) :=
  hs.setProc hold hheld hunsent fun p hp b hb => by
    rw [hfinal p hp] at hb
    cases hb

theorem Sound.sendStep {reply : Reply} (hold : s.procs i = some (.sending message)) :
    Sound (s.sendStep i message reply) := by
  have hend : ∀ proc, heldBy proc = [] → unsentBy proc = [] →
      (∀ p, proc = some p → p.final = none) → Sound (s.setProc i proc) := fun proc hh hu hf =>
    hs.goOn hold hh (hu ▸ nil_subset _) hf
  rcases reply with _ | _ | ⟨_ | _, _ | reason⟩
  · exact hend none rfl rfl fun p hp => by cases hp
  · exact hend none rfl rfl fun p hp => by cases hp
  · exact hend none rfl rfl fun p hp => by cases hp
  · rw [System.sendStep]
    split_ifs
    · exact hend (some (.storing message)) rfl rfl fun p hp => by cases hp; rfl
    · exact hend (some (.finalizing message false)) rfl rfl fun p hp => by cases hp; rfl
  all_goals (exact hend (some (.finalizing message true)) rfl rfl fun p hp => by cases hp; rfl)

theorem Sound.loopStep {mono : ℚ} (hold : s.procs i = some (.looping drain pending)) :
    Sound (s.loopStep settings i drain mono pending) := by
  rcases pending with _ | ⟨item, rest⟩
  · rw [System.loopStep]
    split_ifs
    · exact hs.goOn hold rfl (nil_subset _) fun p hp => by cases hp; rfl
    · exact hs.goOn hold rfl (nil_subset _) fun p hp => by cases hp
  · rw [System.loopStep]
    split_ifs
    · exact hs.goOn hold rfl (Subset.refl _) fun p hp => by cases hp; rfl
    · refine hs.transfer hold ?_ (fun b hb => ?_) fun p hp => by cases hp; rfl
      · have hsplit := filter_append_perm
          (fun e : Entry => drain.now - e.queuedAt ≤ settings.outboundMaxAge) (item :: rest)
        rw [ids, map_append, append_assoc]
        refine Perm.append_left _ ?_
        change (List.map _ _ ++ ids _).Perm (ids _)
        simp only [decide_not]
        rw [ids, ids, ← map_append]
        exact hsplit.map _
      · rcases hb with hb | hb
        · rw [ids, map_append, mem_append] at hb
          refine hb.imp_right fun hb => ?_
          exact (filter_sublist.map _).subset hb
        · exact .inr ((filter_sublist.map _).subset hb)
    · exact hs.goOn hold rfl (Subset.refl _) fun p hp => by cases hp; rfl

theorem Sound.checkStep {answer : Option Bool} (hold : s.procs i = some (.checking drain item rest))
    (h : harmless settings s (.checking drain item rest) (.available answer) = true) :
    Sound (s.checkStep i drain item rest answer) := by
  rcases answer with _ | _ | _
  · cases h
  · refine hs.transfer hold ?_ (fun b hb => ?_) fun p hp => by cases hp; rfl
    · rw [ids, map_append]
      simp [heldBy, Proc.held, ids]
    · rw [ids, map_append, mem_append] at hb
      exact hb.elim id fun hb => absurd hb not_mem_nil
  · exact hs.goOn hold rfl (Subset.refl _) fun p hp => by cases hp; rfl

theorem Sound.retryStep {reply : Reply} (hold : s.procs i = some (.retrying drain item rest))
    (h : harmless settings s (.retrying drain item rest) (.reply reply) = true) :
    Sound (s.retryStep i drain item rest reply) := by
  rcases reply with _ | _ | ⟨_ | _, reason⟩
  · exact hs.goOn hold rfl (Subset.refl _) fun p hp => by cases hp; rfl
  · cases h
  · rcases reason with _ | reason
    · cases h
    · rw [System.retryStep]
      split_ifs
      · refine hs.transfer hold ?_ (fun b hb => ?_) fun p hp => by cases hp; rfl
        · rw [ids, map_append]
          simp [heldBy, Proc.held, ids]
        · rw [ids, map_append, mem_append, or_assoc] at hb
          exact hb.imp_right fun hb => mem_cons.2 (hb.imp_left mem_singleton.1)
      · exact hs.goOn hold rfl (Subset.refl _) fun p hp => by cases hp; rfl
  · exact hs.accept hold

theorem Sound.advance {p : Proc} {input : Input} (hold : s.procs i = some p)
    (h : s.advance settings i p input = some s') (hharm : harmless settings s p input = true) :
    Sound s' := by
  rw [System.advance.eq_def] at h
  split at h
  next message answer =>
    cases h
    split
    · exact hs.goOn hold rfl (nil_subset _) fun p hp => by cases hp
    all_goals (exact hs.goOn hold rfl (nil_subset _) fun p hp => by cases hp; rfl)
  next message reply =>
    cases h
    exact hs.sendStep hold
  next message now later =>
    cases h
    exact hs.storeQueued hold
  next entry now later =>
    cases h
    exact hs.push hold hharm
  next entry now later =>
    cases h
    exact hs.close hold (by decide) rfl (nil_subset _) fun p hp => by cases hp
  next message sent ok now =>
    cases h
    split_ifs
    · exact hs.storeFinal hold
    · exact hs.goOn hold rfl (nil_subset _) fun p hp => by cases hp
  next id message sent now later =>
    cases h
    have hs' := hs.maybePrune hharm
    have hold' : (s.maybePrune settings now).procs i = some (.settling id message sent) := by
      rw [System.maybePrune]
      split_ifs
      all_goals exact hold
    split_ifs
    · refine hs'.setProc hold' rfl (nil_subset _) fun p hp b hb => ?_
      cases hp
      exact hs'.final i _ hold' b hb
    · exact hs'.goOn hold' rfl (nil_subset _) fun p hp => by cases hp
  next id message ok acked =>
    cases h
    split_ifs
    · -- The message was not queued before either.
      have hfinal := hs.final i _ hold id rfl
      have hs' : Sound (s.setStatus id .broadcastSent) :=
        hs.store_eq (fun b => by
            rw [isQueued_onDeliveryStatusUpdate (by decide), and_iff_left_of_imp]
            rintro hq rfl
            exact hfinal.2 hq)
          (idsBelow_onDeliveryStatusUpdate hs.idsBelow) nextId_onDeliveryStatusUpdate
      exact hs'.goOn hold rfl (nil_subset _) fun p hp => by cases hp
    · exact hs.goOn hold rfl (nil_subset _) fun p hp => by cases hp
  next transport pending now mono =>
    cases h
    split
    all_goals (exact hs.goOn hold rfl (Subset.refl _) fun p hp => by cases hp; rfl)
  next now later =>
    cases h
    exact hs.goOn hold rfl (nil_subset _) fun p hp => by cases hp
  next item rest now later =>
    cases h
    exact hs.close hold (by decide) rfl (subset_cons_self _ _) fun p hp => by cases hp; rfl
  next drain pending mono later =>
    cases h
    exact hs.loopStep hold
  next drain item rest answer =>
    cases h
    exact hs.checkStep hold hharm
  next drain item rest reply =>
    cases h
    exact hs.retryStep hold hharm
  next drain item rest ending now later =>
    cases h
    have hst : ending.status ≠ .queued := by
      rcases ending with _ | _ | _ <;> decide
    split_ifs with hsent
    · subst hsent
      exact hs.close hold hst rfl (Subset.refl _) fun p hp => by cases hp; rfl
    · refine hs.close hold hst rfl ?_ fun p hp => by cases hp; rfl
      rcases ending with _ | _ | _
      · exact absurd rfl hsent
      all_goals exact subset_cons_self _ _
  next drain rest ok acked =>
    cases h
    split_ifs with hok
    · exact hs.goOn hold rfl (Subset.refl _) fun p hp => by cases hp; rfl
    · -- There was nothing left to do.
      rw [harmless, Bool.or_eq_true, or_iff_right hok, List.isEmpty_iff] at hharm
      rw [hharm] at hold
      exact hs.goOn hold rfl (nil_subset _) fun p hp => by cases hp
  next drain now later =>
    cases h
    split_ifs
    · exact hs.goOn hold rfl (nil_subset _) fun p hp => by cases hp; rfl
    · exact hs.goOn hold rfl (nil_subset _) fun p hp => by cases hp
  next drain item rest now later =>
    cases h
    exact hs.close hold (by decide) rfl (subset_cons_self _ _) fun p hp => by cases hp; rfl
  next now later =>
    cases h
    have hs' := hs.maybePrune hharm
    have hold' : (s.maybePrune settings now).procs i = some .pruning := by
      rw [System.maybePrune]
      split_ifs
      · exact hold
      · exact hold
    exact hs'.goOn hold' rfl (nil_subset _) fun p hp => by cases hp
  next now later =>
    cases h
    exact hs.goOn hold rfl (nil_subset _) fun p hp => by cases hp
  next item rest now later =>
    cases h
    exact hs.close hold (by decide) rfl (subset_cons_self _ _) fun p hp => by cases hp; rfl
  next => cases h

end Advance

theorem Sound.next {e : Event} (hs : Sound s) (hharm : Harmless settings s e)
    (h : next settings s e = some s') : Sound s' := by
  rcases e with ⟨transport, _ | adapter⟩ | ⟨i, message⟩ | ⟨i, transport⟩ | ⟨i, now⟩ | ⟨i, input⟩
  · cases h
    exact ⟨hs.idsBelow, hs.exclusive, hs.queued, hs.once, hs.below, hs.gone, hs.final⟩
  · cases h
    exact ⟨hs.idsBelow, hs.exclusive, hs.queued, hs.once, hs.below, hs.gone, hs.final⟩
  · obtain ⟨hnone, heq⟩ := Option.ite_none_right_eq_some.1 h
    cases heq
    have hold : s.procs i = none := Option.isNone_iff_eq_none.1 hnone
    rw [System.beginSend]
    split
    · exact hs
    · split_ifs
      · exact hs
      · exact hs.goOn hold rfl (nil_subset _) fun p hp => by cases hp; rfl
  · obtain ⟨hnone, heq⟩ := Option.ite_none_right_eq_some.1 h
    cases heq
    have hold : s.procs i = none := Option.isNone_iff_eq_none.1 hnone
    rw [System.beginDrain]
    split
    · exact hs
    · refine hs.transfer hold ?_ (fun b hb => ?_) fun p hp => by cases hp; rfl
      · change ([] ++ ids (s.queue transport)).Perm (ids (s.queue transport) ++ [])
        rw [nil_append, append_nil]
      · exact .inl (hb.resolve_left not_mem_nil)
  · obtain ⟨hnone, heq⟩ := Option.ite_none_right_eq_some.1 h
    cases heq
    exact hs.beginExpire (Option.isNone_iff_eq_none.1 hnone)
  · obtain ⟨p, hold, h⟩ := Option.bind_eq_some_iff.1 h
    exact hs.advance hold h (hharm p hold)

/-! ## The start -/

/-- What holds while the rows of the list are still to be taken up. -/
structure Recovering (s : System) (l : List (ℕ × Row)) : Prop where
  idsBelow : s.store.IdsBelow
  exclusive : Exclusive s.hands
  queued : ∀ id, s.store.IsQueued id ↔ Held s.hands id ∨ id ∈ l.map Prod.fst
  fresh : ∀ id ∈ l.map Prod.fst, ¬ Held s.hands id
  nodup : (l.map Prod.fst).Nodup
  accepted : s.accepted = []
  procs : ∀ i, s.procs i = none

theorem Recovering.expire {e : ℕ × Row} {l : List (ℕ × Row)} (h : Recovering s (e :: l))
    (hhands : s'.hands = s.hands) (hstore : s'.store = s.store.updateStatus e.1 .expired)
    (haccepted : s'.accepted = s.accepted) (hprocs : s'.procs = s.procs) : Recovering s' l := by
  obtain ⟨hnew, hnodup⟩ := nodup_cons.1 h.nodup
  refine ⟨?_, hhands ▸ h.exclusive, fun b => ?_, fun b hb => ?_, hnodup,
    haccepted.trans h.accepted, fun i => (congrFun hprocs i).trans (h.procs i)⟩
  · rw [hstore]
    exact idsBelow_updateStatus h.idsBelow
  · rw [hstore, isQueued_updateStatus (by decide), h.queued, hhands, map_cons, mem_cons]
    constructor
    · rintro ⟨hheld | rfl | hb, hne⟩
      · exact .inl hheld
      · exact absurd rfl hne
      · exact .inr hb
    · rintro (hheld | hb)
      · refine ⟨.inl hheld, ?_⟩
        rintro rfl
        exact h.fresh e.1 mem_cons_self hheld
      · refine ⟨.inr (.inr hb), ?_⟩
        rintro rfl
        exact hnew hb
  · rw [hhands]
    exact h.fresh b (mem_cons_of_mem _ hb)

theorem Recovering.recoverRow {e : ℕ × Row} {l : List (ℕ × Row)} (h : Recovering s (e :: l)) :
    Recovering (recoverRow settings now s e) l := by
  rw [Messaging.recoverRow]
  dsimp only
  split_ifs
  · exact h.expire rfl rfl rfl rfl
  · refine h.expire (funext fun k => ?_) rfl rfl rfl
    change (s.setQueue e.2.message.transport (s.queue e.2.message.transport)).hands k = _
    rw [hands_setQueue]
    split_ifs with hk
    · rw [hk]
      rfl
    · rfl
  · obtain ⟨hnew, hnodup⟩ := nodup_cons.1 h.nodup
    set q := s.queue e.2.message.transport with hq
    set entry : Entry := { msgId := e.1, message := e.2.message, queuedAt := e.2.timestamp }
    obtain ⟨hexclusive, hgain⟩ :
        Exclusive (s.setQueue e.2.message.transport (q ++ [entry])).hands ∧
        ∀ b, Held (s.setQueue e.2.message.transport (q ++ [entry])).hands b ↔
          Held s.hands b ∨ b = e.1 := by
      refine h.exclusive.gain (i := .queue e.2.message.transport)
        (h.fresh e.1 mem_cons_self) ?_ fun k hk => ?_
      · rw [hands_setQueue, if_pos rfl, ids, map_append]
        exact perm_append_comm
      · rw [hands_setQueue, if_neg hk]
    refine ⟨h.idsBelow, hexclusive, fun b => ?_, fun b hb => ?_, hnodup, h.accepted, h.procs⟩
    · rw [hgain, or_assoc, ← mem_cons, ← map_cons (f := Prod.fst)]
      exact h.queued b
    · rw [hgain]
      rintro (hheld | rfl)
      · exact h.fresh b (mem_cons_of_mem _ hb) hheld
      · exact hnew hb

theorem Recovering.foldl {l : List (ℕ × Row)} (h : Recovering s l) :
    Recovering (l.foldl (Messaging.recoverRow settings now) s) [] := by
  induction l generalizing s with
  | nil => exact h
  | cons e l ih =>
    rw [foldl_cons]
    exact ih h.recoverRow

/-- All the queued messages of the store are taken up. -/
theorem recovering_recover (hstore : store.IsProper) :
    Recovering (recoverQueuedMessages settings store now) [] := by
  have hqueued : ∀ id, store.IsQueued id ↔ id ∈ store.getQueuedSent.map Prod.fst := fun id => by
    rw [Store.getQueuedSent, List.mem_map]
    constructor
    · rintro ⟨row, hrow, hq⟩
      refine ⟨(id, row), (mem_insertionSort _).2 (mem_filter.2 ⟨?_, ?_⟩), rfl⟩
      · exact Dict.get?_eq_some_iff.1 hrow
      · exact decide_eq_true ⟨hstore.2 id row hrow hq, hq⟩
    · rintro ⟨⟨id', row⟩, hmem, rfl⟩
      obtain ⟨hmem, hq⟩ := mem_filter.1 ((mem_insertionSort _).1 hmem)
      exact ⟨row, Dict.get?_eq_some_iff.2 hmem, (of_decide_eq_true hq).2⟩
  have hhands : ∀ k, ({ store : System }).hands k = [] := fun k => by
    rcases k with t | i
    · rfl
    · rfl
  have hnone : ∀ b, ¬ Held ({ store : System }).hands b := by
    rintro b ⟨k, hk⟩
    rw [hhands] at hk
    cases hk
  have hstart : Recovering { store } store.getQueuedSent := by
    refine ⟨hstore.1, ⟨fun k => ?_, fun k l b hk => ?_⟩, fun b => ?_, fun b _ => hnone b, ?_, rfl,
      fun _ => rfl⟩
    · rw [hhands]
      exact nodup_nil
    · exact absurd ⟨k, hk⟩ (hnone b)
    · rw [or_iff_right (hnone b)]
      exact hqueued b
    · rw [Store.getQueuedSent, ((perm_insertionSort _ _).map _).nodup_iff]
      exact store.rows.nodup.sublist (filter_sublist.map _)
  exact hstart.foldl

theorem sound_recover (hstore : store.IsProper) :
    Sound (recoverQueuedMessages settings store now) := by
  have hend : Recovering (recoverQueuedMessages settings store now) [] := recovering_recover hstore
  refine ⟨hend.idsBelow, hend.exclusive, fun b => ?_, ?_, fun b hb => ?_, fun b hb => ?_, ?_⟩
  · rw [hend.queued, map_nil, or_iff_left not_mem_nil]
  · rw [hend.accepted]
    exact nodup_nil
  · rw [hend.accepted] at hb
    cases hb
  · rw [hend.accepted] at hb
    cases hb
  · intro i p hp
    rw [hend.procs] at hp
    cases hp

theorem sound (h : (hub settings).Reach (Harmless settings) s) : Sound s := by
  refine h.induction ?_ ?_
  · rintro s ⟨store, now, hstore, rfl⟩
    exact sound_recover hstore
  · exact fun s e s' hs hharm hstep => hs.next hharm hstep

/-- No drain is running, and no other call is between two accesses to the queue and
    the store that belong together. -/
def System.IsQuiet (s : System) : Prop := ∀ i proc, s.procs i = some proc → proc.held = []

/-- In the runs in which no step does harm: what is in a queue is queued, no message
    is accepted twice, and in every quiet state each queued message is in exactly
    one queue, exactly once. -/
theorem queued_kept (settings : Settings) (s : System)
    (h : (hub settings).Reach (Harmless settings) s) :
    (∀ t, ∀ e ∈ s.queue t, s.store.IsQueued e.msgId) ∧ s.accepted.Nodup ∧
      (s.IsQuiet → ∀ id, s.store.IsQueued id →
        ∃ t, (ids (s.queue t)).count id = 1 ∧ ∀ t', id ∈ ids (s.queue t') → t' = t) := by
  have hs := sound h
  refine ⟨fun t e he => (hs.queued _).2 ⟨.queue t, List.mem_map_of_mem he⟩, hs.once,
    fun hquiet id hid => ?_⟩
  obtain ⟨k, hk⟩ := (hs.queued id).1 hid
  rcases k with t | i
  · refine ⟨t, count_eq_one_of_mem (hs.exclusive.nodup (.queue t)) hk, fun t' ht' => ?_⟩
    exact Holder.queue.inj (hs.exclusive.holder (.queue t') (.queue t) id ht' hk)
  · -- A call has nothing in hand.
    rcases hproc : s.procs i with _ | proc
    · rw [hands_call hproc] at hk
      cases hk
    · rw [hands_call hproc, heldBy, Option.map_some, hquiet i proc hproc] at hk
      cases hk

/-- A message to a node of the mesh. -/
def hello : Message := { transport := "lxmf", text := "hello", destination := "a1b2c3" }

/-- The store of a hub that was stopped when the message was queued. -/
def leftStore : Store :=
  { rows := Dict.set ∅ 1 { message := hello, status := .queued, timestamp := 100 }
    nextId := 2
    lastTs := 100 }

theorem leftStore_isProper : leftStore.IsProper := by
  constructor
  · decide
  · intro id row hrow _
    rw [leftStore, Dict.get?_set] at hrow
    split_ifs at hrow
    · cases hrow
      rfl
    · cases hrow

/-- When the hub starts again, the message is in exactly one queue. -/
theorem queued_kept_restart :
    ∃ t, (ids ((recoverQueuedMessages {} leftStore 200).queue t)).count 1 = 1 ∧
      ∀ t', 1 ∈ ids ((recoverQueuedMessages {} leftStore 200).queue t') → t' = t := by
  have h : (hub {}).Reach (Harmless {}) (recoverQueuedMessages {} leftStore 200) :=
    .init ⟨leftStore, 200, leftStore_isProper, rfl⟩
  refine (queued_kept {} _ h).2.2 (fun i proc hproc => ?_) 1 (by decide +kernel)
  have hend : Recovering (recoverQueuedMessages {} leftStore 200) [] :=
    recovering_recover leftStore_isProper
  rw [hend.procs] at hproc
  cases hproc

/-- A step of a call leaves the others alone. -/
theorem procs_advance {p : Proc} {input : Input} {j : ℕ} (hj : j ≠ i)
    (h : s.advance settings i p input = some s') : s'.procs j = s.procs j := by
  have hset : ∀ (s₁ : System) proc, s₁.procs = s.procs → (s₁.setProc i proc).procs j = s.procs j :=
    fun s₁ proc heq => by rw [procs_setProc, if_neg hj, heq]
  have hprune : ∀ now, (s.maybePrune settings now).procs = s.procs := fun now => by
    rw [System.maybePrune]
    split_ifs
    · rfl
    · rfl
  rw [System.advance.eq_def] at h
  split at h
  next => cases h; exact hset _ _ rfl
  next message reply =>
    cases h
    rcases reply with _ | _ | ⟨_ | _, _ | reason⟩ <;> exact hset _ _ rfl
  next => cases h; exact hset _ _ rfl
  next entry _ _ =>
    cases h
    rw [System.push]
    split_ifs
    · split
      all_goals exact hset _ _ rfl
    · exact hset _ _ rfl
  next => cases h; exact hset _ _ rfl
  next => cases h; split_ifs <;> exact hset _ _ rfl
  next => cases h; exact hset _ _ (hprune _)
  next => cases h; split_ifs <;> exact hset _ _ rfl
  next => cases h; exact hset _ _ rfl
  next => cases h; exact hset _ _ rfl
  next => cases h; exact hset _ _ rfl
  next drain pending _ _ =>
    cases h
    rcases pending with _ | ⟨item, rest⟩
    · exact hset _ _ rfl
    · rw [System.loopStep]
      split_ifs <;> exact hset _ _ rfl
  next drain item rest answer =>
    cases h
    rcases answer with _ | _ | _ <;> exact hset _ _ rfl
  next drain item rest reply =>
    cases h
    rcases reply with _ | _ | ⟨_ | _, _ | reason⟩
    · exact hset _ _ rfl
    · exact hset _ _ rfl
    · exact hset _ _ rfl
    · rw [System.retryStep]
      split_ifs <;> exact hset _ _ rfl
    all_goals exact hset _ _ rfl
  next => cases h; exact hset _ _ rfl
  next => cases h; exact hset _ _ rfl
  next => cases h; exact hset _ _ rfl
  next => cases h; exact hset _ _ rfl
  next => cases h; exact hset _ _ (hprune _)
  next => cases h; exact hset _ _ rfl
  next => cases h; exact hset _ _ rfl
  next => cases h

/-- The event is none of another call. -/
def Event.IsOf (i : ℕ) : Event → Prop
  | .adapter _ _ => True
  | .send j _ | .drain j _ | .expire j _ | .step j _ => j = i

theorem procs_next {e : Event} {j : ℕ} (he : e.IsOf i) (hj : j ≠ i)
    (h : next settings s e = some s') : s'.procs j = s.procs j := by
  have hset : ∀ (s₁ : System) proc, s₁.procs = s.procs → (s₁.setProc i proc).procs j = s.procs j :=
    fun s₁ proc heq => by rw [procs_setProc, if_neg hj, heq]
  rcases e with ⟨transport, _ | adapter⟩ | ⟨i, message⟩ | ⟨i, transport⟩ | ⟨i, now⟩ | ⟨i, input⟩
  · cases h
    rfl
  · cases h
    rfl
  · obtain rfl : i = _ := he
    obtain ⟨-, heq⟩ := Option.ite_none_right_eq_some.1 h
    cases heq
    rw [System.beginSend]
    split
    · rfl
    · split_ifs
      · rfl
      · exact hset _ _ rfl
  · obtain rfl : i = _ := he
    obtain ⟨-, heq⟩ := Option.ite_none_right_eq_some.1 h
    cases heq
    rw [System.beginDrain]
    split
    · rfl
    · exact hset _ _ rfl
  · obtain rfl : i = _ := he
    obtain ⟨-, heq⟩ := Option.ite_none_right_eq_some.1 h
    cases heq
    exact hset _ _ rfl
  · obtain rfl : i = _ := he
    obtain ⟨p, -, hp⟩ := Option.bind_eq_some_iff.1 h
    exact procs_advance hj hp

/-- In a run of one call there are no others. -/
theorem procs_foldlM {l : List Event} {j : ℕ} (hl : ∀ e ∈ l, e.IsOf i) (hj : j ≠ i)
    (h : l.foldlM (next settings) s = some s') : s'.procs j = s.procs j := by
  induction l generalizing s with
  | nil =>
    cases h
    rfl
  | cons e l ih =>
    rw [foldlM_cons] at h
    obtain ⟨s₁, hs₁, h⟩ := Option.bind_eq_some_iff.1 h
    rw [ih (fun e he => hl e (mem_cons_of_mem _ he)) h,
      procs_next (hl e mem_cons_self) hj hs₁]

/-- A message is queued, and the drain that takes it finds that `is_available`
    raises. -/
def interruptedDrain : List Event :=
  [.adapter "lxmf" (some {}), .send 0 hello, .step 0 (.available (some false)),
    .step 0 (.tick 10 10), .step 0 (.tick 10 10), .drain 0 "lxmf", .step 0 (.tick 20 20),
    .step 0 (.tick 20 20), .step 0 (.available none)]

/-- When `is_available` raises in a drain, the message stays queued in the store,
    but no queue and no call has it. -/
theorem queued_kept_fails : ∃ s, (hub {}).Reachable s ∧ (∀ i, s.procs i = none) ∧
    s.store.IsQueued 1 ∧ ∀ t, s.queue t = [] := by
  obtain ⟨s, hs, hnone, hqueued, hqueues⟩ :
      ∃ s ∈ interruptedDrain.foldlM (next {}) (recoverQueuedMessages {} {} 0),
        (s.procs 0).isNone ∧ s.store.IsQueued 1 ∧ ∀ q ∈ s.queues.values, q = [] := by
    decide +kernel
  have hproper : Store.IsProper {} := ⟨by decide, fun id row hrow => by cases hrow⟩
  have hcall : ∀ e ∈ interruptedDrain, e.IsOf 0 := by
    simp [interruptedDrain, Event.IsOf]
  refine ⟨s, .foldlM (.init ⟨{}, 0, hproper, rfl⟩) hs, fun i => ?_, hqueued,
    fun t => ?_⟩
  · by_cases hi : i = 0
    · rw [hi]
      exact Option.isNone_iff_eq_none.1 hnone
    · exact procs_foldlM hcall hi hs
  · rw [System.queue]
    rcases hq : s.queues.get? t with _ | q
    · rfl
    · exact hqueues q (Dict.mem_values.2 ⟨t, hq⟩)

end ReticulumPi.Messaging
