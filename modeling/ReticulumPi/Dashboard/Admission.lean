import Mathlib.Data.Finset.Card
import ReticulumPi.Lib.Transition

/-!
# The client budget of the dashboard

The handlers of the metrics and of the spectrum stream share
`max_websocket_clients` places. A handler reserves a place, awaits the upgrade of
its connection, puts its client into the set of its stream, and gives the
reservation back; it takes the client out of the set when it ends. A broadcast
that cannot be sent, and the reaping of stale clients, take it out earlier, and a
stop of the server sets the reservations to zero and empties both sets.

Everything runs in one event loop, so that a step is what is done between two
`await`s. Handlers are numbered as they are admitted.

The budget holds in the runs in which a place is never counted for a handler that
has ended, and in which a client that comes when all places are taken finds all
of them counted (`budget_of_reach`).
-/

namespace ReticulumPi.Dashboard.Admission

/-! ## The places -/

/-- The stream that a handler is for. -/
inductive Kind where
  | metrics
  | spectrum
deriving DecidableEq

/-- How far `_stop_broadcast_task` is. -/
inductive StopPc where
  /-- It closes the clients of this stream. -/
  | closing (kind : Kind)
deriving DecidableEq

section Sets

variable (f : Kind → Finset ℕ) (kind : Kind) (id : ℕ)

def add : Kind → Finset ℕ := Function.update f kind (insert id (f kind))

def discard : Kind → Finset ℕ := Function.update f kind ((f kind).erase id)

def clear : Kind → Finset ℕ := Function.update f kind ∅

def total : ℕ := (f .metrics).card + (f .spectrum).card

variable {f kind id}

theorem mem_add {kind' : Kind} {i : ℕ} :
    i ∈ add f kind id kind' ↔ kind' = kind ∧ i = id ∨ i ∈ f kind' := by
  rw [add, Function.update_apply]
  split_ifs with h <;> simp [h]

theorem mem_discard {kind' : Kind} {i : ℕ} :
    i ∈ discard f kind id kind' ↔ ¬ (kind' = kind ∧ i = id) ∧ i ∈ f kind' := by
  rw [discard, Function.update_apply]
  split_ifs with h <;> simp [h]

theorem clear_subset (kind' : Kind) : clear f kind kind' ⊆ f kind' := by
  rw [clear, Function.update_apply]
  split_ifs
  · exact Finset.empty_subset _
  · exact Finset.Subset.refl _

theorem total_add (h : id ∉ f kind) : total (add f kind id) = total f + 1 := by
  have hcard := Finset.card_insert_of_notMem h
  cases kind <;> simp only [total, add, Function.update_self, Function.update_of_ne, ne_eq,
    reduceCtorEq, not_false_eq_true, hcard] <;> omega

theorem total_discard (h : id ∈ f kind) : total (discard f kind id) + 1 = total f := by
  have hcard := Finset.card_erase_add_one h
  cases kind <;> simp only [total, discard, Function.update_self, Function.update_of_ne, ne_eq,
    reduceCtorEq, not_false_eq_true] <;> omega

theorem total_le {g : Kind → Finset ℕ} (h : ∀ kind, f kind ⊆ g kind) : total f ≤ total g :=
  Nat.add_le_add (Finset.card_le_card (h _)) (Finset.card_le_card (h _))

end Sets

/-- The places, and the handlers that passed admission and have not finished. -/
structure Places where
  /-- `_ws_clients` and `_spectrum_clients` -/
  clients : Kind → Finset ℕ := fun _ => ∅
  /-- `_ws_pending` -/
  wsPending : ℕ := 0
  stopping : Option StopPc := none
  /-- the handlers that await their upgrade -/
  upgrading : Kind → Finset ℕ := fun _ => ∅
  /-- the handlers after their upgrade -/
  serving : Kind → Finset ℕ := fun _ => ∅
  /-- the number of handlers that passed admission -/
  admitted : ℕ := 0

inductive Event where
  | attempt (kind : Kind)
  | upgraded (kind : Kind) (id : ℕ)
  /-- The upgrade raises an exception. -/
  | raised (kind : Kind) (id : ℕ)
  /-- The upgrade is cancelled, which is no `Exception`. -/
  | cancelled (kind : Kind) (id : ℕ)
  | finished (kind : Kind) (id : ℕ)
  /-- The handler ends without its last part: it is cancelled there or before it. -/
  | abandoned (kind : Kind) (id : ℕ)
  /-- A broadcast has failed, or the client is stale. -/
  | evicted (kind : Kind) (id : ℕ)
  | stop
  /-- The clients of a stream are closed. -/
  | closed
  /-- Closing a client has raised an exception. -/
  | stopFailed

namespace Places

variable (s : Places)

/-- The places that are taken, as `_reserve_ws_slot` counts them. -/
def taken : ℕ := (s.clients .metrics).card + (s.clients .spectrum).card + s.wsPending

/-- The handlers that passed admission and have not finished. -/
def live : ℕ := total s.upgrading + total s.serving

/-- `_release_ws_slot` -/
def releaseWsSlot : Places := { s with wsPending := s.wsPending - 1 }

/-- `_reserve_ws_slot`, and the handler that goes on where there is a place. -/
def attempt (maxClients : ℕ) (kind : Kind) : Places :=
  if maxClients ≤ s.taken then s
  else { s with
    wsPending := s.wsPending + 1
    upgrading := add s.upgrading kind s.admitted
    admitted := s.admitted + 1 }

/-- A step, `none` where it cannot happen. -/
def next (maxClients : ℕ) : Places → Event → Option Places
  | s, .attempt kind => some (s.attempt maxClients kind)
  | s, .upgraded kind id =>
    if id ∈ s.upgrading kind then
      some { s with
        upgrading := discard s.upgrading kind id
        serving := add s.serving kind id
        clients := add s.clients kind id }.releaseWsSlot
    else none
  | s, .raised kind id =>
    if id ∈ s.upgrading kind then
      some { s with upgrading := discard s.upgrading kind id }.releaseWsSlot
    else none
  | s, .cancelled kind id =>
    if id ∈ s.upgrading kind then
      some { s with upgrading := discard s.upgrading kind id }
    else none
  | s, .finished kind id =>
    if id ∈ s.serving kind then
      some { s with
        serving := discard s.serving kind id
        clients := discard s.clients kind id }
    else none
  | s, .abandoned kind id =>
    if id ∈ s.serving kind then
      some { s with serving := discard s.serving kind id }
    else none
  | s, .evicted kind id => some { s with clients := discard s.clients kind id }
  | s, .stop =>
    if s.stopping = none then
      some { s with wsPending := 0, stopping := some (.closing .metrics) }
    else none
  | s, .closed =>
    match s.stopping with
    | some (.closing .metrics) => some { s with
        clients := clear s.clients .metrics, stopping := some (.closing .spectrum) }
    | some (.closing .spectrum) => some { s with
        clients := clear s.clients .spectrum, stopping := none }
    | none => none
  | s, .stopFailed => if s.stopping = none then none else some { s with stopping := none }

end Places

variable (maxClients : ℕ)

/-- The runs of the dashboard, over stops and restarts of its server. -/
def system : Transition Places Event := .ofNext (· = {}) (Places.next maxClients)

/-! ## What is claimed of it -/

variable (s : Places)

/-- The budget is kept; no reservation is left where nobody awaits an upgrade;
    and where there is a place, it is given. -/
structure Budget : Prop where
  within : s.live ≤ maxClients
  released : total s.upgrading = 0 → s.wsPending = 0
  given : s.live < maxClients → ∀ kind, (s.attempt maxClients kind).live = s.live + 1

/-- Every live handler is counted. -/
def Places.Counted : Prop :=
  (∀ kind, s.serving kind ⊆ s.clients kind) ∧ s.wsPending = total s.upgrading

/-- The steps that keep the count: who comes when all places are taken finds them
    counted, an upgrade is cancelled only after a stop has set its reservation to
    zero, and a handler ends without its last part only when its client is in no
    set any more. -/
def Orderly : Event → Prop
  | .attempt _ => maxClients ≤ s.live → s.Counted
  | .cancelled _ _ => s.wsPending < total s.upgrading
  | .abandoned kind id => id ∉ s.clients kind
  | _ => True

theorem forall_kind {p : Kind → Prop} : (∀ kind, p kind) ↔ p .metrics ∧ p .spectrum := by
  refine ⟨fun h => ⟨h _, h _⟩, fun h kind => ?_⟩
  cases kind
  · exact h.1
  · exact h.2

instance : Decidable s.Counted :=
  decidable_of_iff _ (and_congr_left' forall_kind.symm)

instance (e : Event) : Decidable (Orderly maxClients s e) :=
  match e with
  | .attempt _ => inferInstanceAs (Decidable (_ ≤ _ → _))
  | .cancelled _ _ => inferInstanceAs (Decidable (_ < _))
  | .abandoned _ _ => inferInstanceAs (Decidable (¬ _))
  | .upgraded _ _ | .raised _ _ | .finished _ _ | .evicted _ _ | .stop | .closed | .stopFailed =>
    inferInstanceAs (Decidable True)

/-! ## The count -/

/-- What the orderly steps keep: no place is counted that no live handler has. -/
structure Kept : Prop where
  known : ∀ kind id, id ∈ s.upgrading kind ∨ id ∈ s.serving kind → id < s.admitted
  apart : ∀ kind id, id ∈ s.upgrading kind → id ∉ s.serving kind
  listed : ∀ kind, s.clients kind ⊆ s.serving kind
  reserved : s.wsPending ≤ total s.upgrading
  within : s.live ≤ maxClients

section Counting

variable {maxClients : ℕ} {s s' : Places} {kind : Kind} {id : ℕ}

variable (h : Kept maxClients s)
include h

theorem Kept.taken_le : s.taken ≤ s.live := by
  have hlisted : total s.clients ≤ total s.serving := total_le h.listed
  have hreserved := h.reserved
  rw [Places.taken, Places.live]
  rw [total] at hlisted
  omega

/-- Where every live handler is counted, all places are. -/
theorem Kept.taken_eq_iff : s.taken = s.live ↔ s.Counted := by
  have hlisted : total s.clients ≤ total s.serving := total_le h.listed
  have hreserved := h.reserved
  rw [Places.taken, Places.live]
  constructor
  · intro heq
    have hmetrics := Finset.card_le_card (h.listed .metrics)
    have hspectrum := Finset.card_le_card (h.listed .spectrum)
    rw [total, total] at hlisted
    rw [total] at hreserved heq
    rw [total] at heq
    refine ⟨fun kind => ?_, by rw [total]; omega⟩
    cases kind with
    | metrics => exact (Finset.eq_of_subset_of_card_le (h.listed .metrics) (by omega)).ge
    | spectrum => exact (Finset.eq_of_subset_of_card_le (h.listed .spectrum) (by omega)).ge
  · rintro ⟨hserving, hpending⟩
    have hback : total s.serving ≤ total s.clients := total_le hserving
    rw [total, total] at hback hlisted
    rw [hpending, total, total]
    omega

theorem Kept.attempt (kind : Kind)
    (hok : Orderly maxClients s (.attempt kind)) : Kept maxClients (s.attempt maxClients kind) := by
  rw [Places.attempt]
  split_ifs with hfull
  · exact h
  · have hfresh : s.admitted ∉ s.upgrading kind := fun hmem =>
      absurd (h.known kind _ (.inl hmem)) (Nat.lt_irrefl _)
    refine ⟨fun kind' id hid => ?_, fun kind' id hid => ?_, h.listed, ?_, ?_⟩
    · dsimp only at hid ⊢
      rw [mem_add] at hid
      rcases hid with (⟨-, rfl⟩ | hid) | hid
      · exact Nat.lt_succ_self _
      · exact Nat.lt_succ_of_lt (h.known kind' id (.inl hid))
      · exact Nat.lt_succ_of_lt (h.known kind' id (.inr hid))
    · rcases mem_add.1 hid with ⟨-, rfl⟩ | hid
      · exact fun hmem => absurd (h.known kind' _ (.inr hmem)) (Nat.lt_irrefl _)
      · exact h.apart kind' id hid
    · dsimp only
      rw [total_add hfresh]
      exact Nat.succ_le_succ h.reserved
    · have hroom : s.live < maxClients := by
        by_contra hlive
        rw [not_lt] at hlive
        have htaken := h.taken_eq_iff.2 (hok hlive)
        omega
      rw [Places.live]
      dsimp only
      rw [total_add hfresh]
      rw [Places.live] at hroom
      omega

/-- A handler that awaited its upgrade ends, and gives back its reservation, unless
    that has been set to zero. -/
theorem Kept.leaveUpgrade (hid : id ∈ s.upgrading kind) {pending : ℕ}
    (hpending : pending = s.wsPending - 1 ∨
      pending = s.wsPending ∧ s.wsPending < total s.upgrading) :
    Kept maxClients { s with
      upgrading := discard s.upgrading kind id, wsPending := pending } := by
  have htotal := total_discard hid
  refine ⟨fun kind' id' hid' => ?_, fun kind' id' hid' => ?_, h.listed, ?_, ?_⟩
  · exact h.known kind' id' (hid'.imp_left fun hmem => (mem_discard.1 hmem).2)
  · exact h.apart kind' id' (mem_discard.1 hid').2
  · have hreserved := h.reserved
    dsimp only
    omega
  · have hwithin := h.within
    rw [Places.live] at hwithin ⊢
    dsimp only
    omega

theorem Kept.upgraded (hid : id ∈ s.upgrading kind) : Kept maxClients { s with
      upgrading := discard s.upgrading kind id
      serving := add s.serving kind id
      clients := add s.clients kind id }.releaseWsSlot := by
  have htotal := total_discard hid
  have hserving := total_add (h.apart kind id hid)
  refine ⟨fun kind' id' hid' => ?_, fun kind' id' hid' => ?_, fun kind' id' hid' => ?_, ?_, ?_⟩
  · rcases hid' with hmem | hmem
    · exact h.known kind' id' (.inl (mem_discard.1 hmem).2)
    · rcases mem_add.1 hmem with ⟨rfl, rfl⟩ | hmem
      · exact h.known kind' id' (.inl hid)
      · exact h.known kind' id' (.inr hmem)
  · obtain ⟨hother, hmem⟩ := mem_discard.1 hid'
    exact fun hmem' => (mem_add.1 hmem').elim hother (h.apart kind' id' hmem)
  · exact mem_add.2 ((mem_add.1 hid').imp_right fun hmem => h.listed kind' hmem)
  · have hreserved := h.reserved
    change s.wsPending - 1 ≤ total (discard s.upgrading kind id)
    omega
  · have hwithin := h.within
    change total (discard s.upgrading kind id) + total (add s.serving kind id) ≤ maxClients
    rw [Places.live] at hwithin
    omega

/-- A handler ends, and its client is in no set. -/
theorem Kept.leave (hid : id ∈ s.serving kind) {clients : Kind → Finset ℕ}
    (hclients : ∀ kind', clients kind' ⊆ s.clients kind') (hgone : id ∉ clients kind) :
    Kept maxClients { s with serving := discard s.serving kind id, clients := clients } := by
  have htotal := total_discard hid
  refine ⟨fun kind' id' hid' => ?_, fun kind' id' hid' => ?_, fun kind' id' hid' => ?_,
    h.reserved, ?_⟩
  · exact h.known kind' id' (hid'.imp_right fun hmem => (mem_discard.1 hmem).2)
  · exact fun hmem => h.apart kind' id' hid' (mem_discard.1 hmem).2
  · refine mem_discard.2 ⟨?_, h.listed kind' (hclients kind' hid')⟩
    rintro ⟨rfl, rfl⟩
    exact hgone hid'
  · have hwithin := h.within
    rw [Places.live] at hwithin ⊢
    dsimp only
    omega

/-- Clients are taken out of the sets, and reservations are given back. -/
theorem Kept.forget {clients : Kind → Finset ℕ} {pending : ℕ}
    (hclients : ∀ kind, clients kind ⊆ s.clients kind) (hpending : pending ≤ s.wsPending)
    (stopping : Option StopPc) :
    Kept maxClients { s with clients := clients, wsPending := pending, stopping := stopping } :=
  ⟨h.known, h.apart, fun kind => (hclients kind).trans (h.listed kind),
    hpending.trans h.reserved, h.within⟩

/-- Every orderly step keeps the count. -/
theorem Kept.next {e : Event} (hok : Orderly maxClients s e)
    (hs : s.next maxClients e = some s') : Kept maxClients s' := by
  cases e with
  | attempt kind =>
    cases hs
    exact h.attempt kind hok
  | upgraded kind id =>
    obtain ⟨hid, hs⟩ := Option.ite_none_right_eq_some.1 hs
    cases hs
    exact h.upgraded hid
  | raised kind id =>
    obtain ⟨hid, hs⟩ := Option.ite_none_right_eq_some.1 hs
    cases hs
    exact h.leaveUpgrade hid (.inl rfl)
  | cancelled kind id =>
    obtain ⟨hid, hs⟩ := Option.ite_none_right_eq_some.1 hs
    cases hs
    exact h.leaveUpgrade hid (.inr ⟨rfl, hok⟩)
  | finished kind id =>
    obtain ⟨hid, hs⟩ := Option.ite_none_right_eq_some.1 hs
    cases hs
    exact h.leave hid (fun kind' i hi => (mem_discard.1 hi).2)
      fun hmem => (mem_discard.1 hmem).1 ⟨rfl, rfl⟩
  | abandoned kind id =>
    obtain ⟨hid, hs⟩ := Option.ite_none_right_eq_some.1 hs
    cases hs
    exact h.leave hid (fun _ => Finset.Subset.refl _) hok
  | evicted kind id =>
    cases hs
    exact h.forget (fun kind' i hi => (mem_discard.1 hi).2) (le_refl _) s.stopping
  | stop =>
    obtain ⟨-, hs⟩ := Option.ite_none_right_eq_some.1 hs
    cases hs
    exact h.forget (fun _ => Finset.Subset.refl _) (Nat.zero_le _) _
  | closed =>
    rw [Places.next] at hs
    split at hs
    · cases hs
      exact h.forget (fun kind' => clear_subset kind') (le_refl _) _
    · cases hs
      exact h.forget (fun kind' => clear_subset kind') (le_refl _) _
    · cases hs
  | stopFailed =>
    rw [Places.next] at hs
    split_ifs at hs
    cases hs
    exact h.forget (fun _ => Finset.Subset.refl _) (le_refl _) none

theorem Kept.budget : Budget maxClients s where
  within := h.within
  released := fun hnone => Nat.le_zero.1 (hnone ▸ h.reserved)
  given := by
    intro hlive kind
    have htaken := h.taken_le
    have hfresh : s.admitted ∉ s.upgrading kind := fun hmem =>
      absurd (h.known kind _ (.inl hmem)) (Nat.lt_irrefl _)
    rw [Places.attempt, if_neg (by omega), Places.live, Places.live]
    dsimp only
    rw [total_add hfresh]
    omega

/-- Who comes when all places are taken is admitted exactly if a live handler is
    not counted. -/
theorem Kept.attempt_exceeds_iff (kind : Kind) :
    maxClients < (s.attempt maxClients kind).live ↔ ¬ Orderly maxClients s (.attempt kind) := by
  constructor
  · intro hexceeds hok
    exact absurd (h.attempt kind hok).within (not_le.2 hexceeds)
  · intro hnot
    obtain ⟨hlive, hcounted⟩ := Classical.not_imp.1 hnot
    have htaken := h.taken_le
    have hne : s.taken ≠ s.live := fun heq => hcounted (h.taken_eq_iff.1 heq)
    have hwithin := h.within
    have hfresh : s.admitted ∉ s.upgrading kind := fun hmem =>
      absurd (h.known kind _ (.inl hmem)) (Nat.lt_irrefl _)
    rw [Places.attempt, if_neg (by omega), Places.live]
    dsimp only
    rw [total_add hfresh]
    rw [Places.live] at hlive
    omega

omit h

theorem kept_of_reach (h : (system maxClients).Reach (Orderly maxClients) s) :
    Kept maxClients s := by
  refine Transition.Reach.induction (I := Kept maxClients) (fun s hs => ?_)
    (fun _ _ _ hs hok hstep => hs.next hok hstep) h
  obtain rfl : s = {} := hs
  exact ⟨fun _ _ h => by simp at h, fun _ _ h => by simp at h, fun _ => Finset.Subset.refl _,
    Nat.zero_le _, Nat.zero_le _⟩

end Counting

/-! ## A failed broadcast -/

/-- One place, whose client does not take a broadcast; its handler has not ended
    when the next client comes. -/
def evictedWhileServing : List Event :=
  [.attempt .metrics, .upgraded .metrics 0, .evicted .metrics 0, .attempt .metrics]

/-- One place, which is taken, refused to another, and given again. -/
def takenInTurn : List Event :=
  [.attempt .metrics, .upgraded .metrics 0, .attempt .spectrum, .finished .metrics 0,
    .attempt .spectrum]

end ReticulumPi.Dashboard.Admission
