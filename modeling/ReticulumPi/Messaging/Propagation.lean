import Mathlib.Data.List.MinMax
import Mathlib.Data.List.Sort
import Mathlib.Tactic.Linarith
import ReticulumPi.Lib.Transition

/-!
# The choice of a propagation node

The LXMF adapter of the messaging hub keeps a short list of the propagation nodes
that have announced themselves, the ones with the fewest hops first, and the
router delivers by the *current* one of them. Announces, failed deliveries and the
pruning of stale nodes run on different threads: the list and the current node
change under a lock, but the router is told of a new choice after the lock has been
left.

* `Sound`: what the list is like, and that no fresh node is passed over;
* `Told`: where a choice is of which the router has not been told yet;
* `choices_told`: the result.
-/

namespace ReticulumPi.Messaging.Propagation

open List

variable {κ : Type*} [DecidableEq κ]

/-! ## The nodes -/

/-- An entry of `_propagation_nodes`. -/
structure Node (κ : Type*) where
  hash : κ
  hops : ℕ
  lastSeen : ℚ
  failures : ℕ := 0
deriving DecidableEq

/-- `_PROP_STALE_S` -/
def staleAfter : ℚ := 3600

/-- `_MAX_PROP_NODES` -/
def maxNodes : ℕ := 3

namespace Node

def IsFresh (now : ℚ) (e : Node κ) : Prop := now - e.lastSeen < staleAfter
deriving Decidable

/-- The order of the list: by hops, then by freshness. -/
def Precedes (a b : Node κ) : Prop :=
  a.hops < b.hops ∨ (a.hops = b.hops ∧ b.lastSeen ≤ a.lastSeen)
deriving Decidable

def IsEligible (now : ℚ) (e : Node κ) : Prop := e.failures < 3 ∧ e.IsFresh now
deriving Decidable

end Node

/-- The node that announces itself is refreshed, or comes in at the end. -/
def heard (hash : κ) (hops : ℕ) (now : ℚ) : List (Node κ) → List (Node κ)
  | [] => [{ hash, hops, lastSeen := now }]
  | e :: l =>
    if e.hash = hash then { e with hops, lastSeen := now, failures := 0 } :: l
    else e :: heard hash hops now l

/-- The node of the hash has failed once more. -/
def failed (hash : κ) : List (Node κ) → List (Node κ)
  | [] => []
  | e :: l =>
    if e.hash = hash then { e with failures := e.failures + 1 } :: l else e :: failed hash l

/-- `_select_best_prop_node` -/
def selectBestPropNode (nodes : List (Node κ)) (now : ℚ) : Option κ :=
  match nodes.find? (Node.IsEligible now ·) with
  | some e => some e.hash
  | none => ((nodes.filter (Node.IsFresh now ·)).argmin (·.failures)).map (·.hash)

/-! ## Calls -/

/-- Where a call is: before it takes the lock, with what it has read until then, or
    before it tells the router. -/
inductive Proc (κ : Type*) where
  -- `_handle_propagation_announce`
  | announced (hash : κ) (hops : ℕ) (now : ℚ)
  -- `_check_propagation_failover`
  | failing
  -- `prune_stale_propagation`
  | pruning (now : ℚ)
  | telling (best : κ)

/-- The call is about to choose a node. -/
def Proc.IsChoosing : Proc κ → Prop
  | .announced _ _ _ | .failing => True
  | _ => False

structure State (κ : Type*) where
  nodes : List (Node κ) := []
  /-- `_current_prop_node` -/
  current : Option κ := none
  /-- The outbound propagation node of the router. -/
  outbound : Option κ := none
  clock : ℚ := 0
  procs : ℕ → Option (Proc κ) := fun _ => none
  /-- The calls that have yet to tell the router, in the order of their choices. -/
  choices : List ℕ := []

namespace State

variable (s : State κ) (i : ℕ)

def setProc (proc : Option (Proc κ)) : State κ :=
  { s with procs := Function.update s.procs i proc }

/-- A node is chosen; the router has to be told of a new one. -/
def choose (now : ℚ) : State κ :=
  match selectBestPropNode s.nodes now with
  | none => s.setProc i none
  | some best =>
    if s.current = some best then s.setProc i none
    else { s with current := some best, choices := s.choices ++ [i] }.setProc i (some (.telling best))

/-- `_handle_propagation_announce`, in the lock. -/
def handlePropagationAnnounce (hash : κ) (hops : ℕ) (now later : ℚ) : State κ :=
  let nodes := (heard hash hops now s.nodes).filter (Node.IsFresh now ·)
  { s with nodes := (nodes.insertionSort Node.Precedes).take maxNodes }.choose i later

/-- `_check_propagation_failover`, in the lock. -/
def checkPropagationFailover (now : ℚ) : State κ :=
  match s.current with
  | none => s.setProc i none
  | some current =>
    if s.nodes = [] then s.setProc i none
    else { s with nodes := failed current s.nodes }.choose i now

/-- `prune_stale_propagation`, in the lock. -/
def pruneStalePropagation (now : ℚ) : State κ :=
  { s with nodes := s.nodes.filter (Node.IsFresh now ·) }.setProc i none

/-- `set_outbound_propagation_node` -/
def tell (best : κ) : State κ :=
  { s with outbound := some best, choices := s.choices.erase i }.setProc i none

/-- The next stretch of a call. -/
def advance (now : ℚ) : Proc κ → State κ
  | .announced hash hops seen => s.handlePropagationAnnounce i hash hops seen now
  | .failing => s.checkPropagationFailover i now
  | .pruning seen => s.pruneStalePropagation i seen
  | .telling best => s.tell i best

end State

/-! ## Runs -/

inductive Event (κ : Type*) where
  /-- A valid announce of an active propagation node comes in. -/
  | announce (i : ℕ) (hash : κ) (hops : ℕ) (now : ℚ)
  /-- A delivery fails. -/
  | fail (i : ℕ)
  | prune (i : ℕ) (now : ℚ)
  | step (i : ℕ) (now : ℚ)

/-- The clock does not go back. -/
def next (s : State κ) : Event κ → Option (State κ)
  | .announce i hash hops now =>
    if (s.procs i).isNone ∧ s.clock ≤ now then
      some ({ s with clock := now }.setProc i (some (.announced hash hops now)))
    else none
  | .fail i => if (s.procs i).isNone then some (s.setProc i (some .failing)) else none
  | .prune i now =>
    if (s.procs i).isNone ∧ s.clock ≤ now then
      some ({ s with clock := now }.setProc i (some (.pruning now)))
    else none
  | .step i now =>
    if s.clock ≤ now then
      (s.procs i).map fun proc => { s with clock := now }.advance i now proc
    else none

/-- The adapter, from its start. -/
abbrev adapter : Transition (State κ) (Event κ) := .ofNext (fun s => ∃ clock, s = { clock }) next

/-- The router is told of the choices in the order in which they were made. -/
def InTurn (s : State κ) : Event κ → Prop
  | .step i _ => i ∈ s.choices → s.choices.head? = some i
  | _ => True

instance (s : State κ) : ∀ e, Decidable (InTurn s e)
  | .announce _ _ _ _ | .fail _ | .prune _ _ => inferInstanceAs (Decidable True)
  | .step i _ => inferInstanceAs (Decidable (i ∈ s.choices → s.choices.head? = some i))

variable {s s' : State κ} {i j : ℕ} {hash : κ} {hops : ℕ} {now later : ℚ} {nodes : List (Node κ)}

/-! ## The order of the list -/

omit [DecidableEq κ] in
theorem Node.Precedes.refl (a : Node κ) : a.Precedes a := .inr ⟨rfl, le_rfl⟩

instance : Std.Total (Node.Precedes (κ := κ)) where
  total a b := by
    rcases lt_trichotomy a.hops b.hops with hlt | heq | hlt
    · exact .inl (.inl hlt)
    · exact (le_total b.lastSeen a.lastSeen).imp (fun h => .inr ⟨heq, h⟩)
        fun h => .inr ⟨heq.symm, h⟩
    · exact .inr (.inl hlt)

instance : IsTrans (Node κ) Node.Precedes where
  trans a b c hab hbc := by
    rcases hab with hab | ⟨hab, hab'⟩
    · rcases hbc with hbc | ⟨hbc, -⟩
      · exact .inl (hab.trans hbc)
      · exact .inl (hbc ▸ hab)
    · rcases hbc with hbc | ⟨hbc, hbc'⟩
      · exact .inl (hab ▸ hbc)
      · exact .inr ⟨hab.trans hbc, hbc'.trans hab'⟩

omit [DecidableEq κ] in
/-- The first node of the list that will do is the best of those. -/
theorem precedes_of_find? {p : Node κ → Bool} {b e : Node κ} (hl : nodes.Pairwise Node.Precedes)
    (hb : nodes.find? p = some b) (he : e ∈ nodes) (hp : p e = true) : b.Precedes e := by
  obtain ⟨-, before, after, rfl, hbefore⟩ := find?_eq_some_iff_append.1 hb
  rcases mem_append.1 he with he | he
  · have hnot := hbefore e he
    rw [hp] at hnot
    cases hnot
  · rcases mem_cons.1 he with rfl | he
    · exact Node.Precedes.refl _
    · exact (pairwise_cons.1 (pairwise_append.1 hl).2.1).1 e he

omit [DecidableEq κ] in
/-- If nothing is chosen, no node is fresh. -/
theorem not_isFresh_of_selectBest (h : selectBestPropNode nodes now = none) :
    ∀ e ∈ nodes, ¬ e.IsFresh now := by
  intro e he hfresh
  rw [selectBestPropNode] at h
  split at h
  · cases h
  · rw [Option.map_eq_none_iff, argmin_eq_none] at h
    have hmem : e ∈ nodes.filter (Node.IsFresh now ·) :=
      mem_filter.2 ⟨he, decide_eq_true hfresh⟩
    rw [h] at hmem
    cases hmem

/-! ## The hashes -/

theorem mem_heard {e : Node κ} (he : e ∈ heard hash hops now nodes) :
    e.hash = hash ∨ e ∈ nodes := by
  induction nodes with
  | nil =>
    rw [heard, mem_singleton] at he
    exact .inl (by rw [he])
  | cons a l ih =>
    rw [heard] at he
    split_ifs at he with ha
    · rcases mem_cons.1 he with rfl | he
      · exact .inl ha
      · exact .inr (mem_cons_of_mem _ he)
    · rcases mem_cons.1 he with rfl | he
      · exact .inr mem_cons_self
      · exact (ih he).imp_right (mem_cons_of_mem _)

theorem nodup_heard (h : (nodes.map (·.hash)).Nodup) :
    ((heard hash hops now nodes).map (·.hash)).Nodup := by
  induction nodes with
  | nil => exact nodup_singleton _
  | cons a l ih =>
    rw [map_cons, nodup_cons] at h
    obtain ⟨hnew, hnodup⟩ := h
    rw [heard]
    split_ifs with ha
    · exact nodup_cons.2 ⟨hnew, hnodup⟩
    · refine nodup_cons.2 ⟨fun hmem => ?_, ih hnodup⟩
      obtain ⟨e, he, heq⟩ := List.mem_map.1 hmem
      rcases mem_heard he with hhash | he
      · exact ha (heq.symm.trans hhash)
      · exact hnew (List.mem_map.2 ⟨e, he, heq⟩)

/-- A node whose failures are forgotten. -/
def Node.forgiven (e : Node κ) : Node κ := { e with failures := 0 }

/-- A failure changes nothing but the count. -/
theorem map_forgiven_failed (hash : κ) (nodes : List (Node κ)) :
    (failed hash nodes).map Node.forgiven = nodes.map Node.forgiven := by
  induction nodes with
  | nil => rfl
  | cons e l ih =>
    rw [failed]
    split_ifs
    · rfl
    · rw [map_cons, ih, map_cons]

/-! ## The list -/

/-- The list is as it should be: it is in order, and while no node is current none in
    it is fresh. -/
structure Sound (s : State κ) : Prop where
  nodup : (s.nodes.map (·.hash)).Nodup
  length : s.nodes.length ≤ maxNodes
  sorted : s.nodes.Pairwise Node.Precedes
  stale : s.current = none → ∀ e ∈ s.nodes, ¬ e.IsFresh s.clock

/-- The current node is the best of those that are fresh and have failed less than
    three times, if there are any. -/
def State.HasBest (s : State κ) (now : ℚ) : Prop :=
  (∃ e ∈ s.nodes, e.IsEligible now) → ∃ b ∈ s.nodes, b.IsEligible now ∧
    s.current = some b.hash ∧ ∀ e ∈ s.nodes, e.IsEligible now → b.Precedes e

omit [DecidableEq κ] in
theorem not_isFresh_mono {e : Node κ} (hle : now ≤ later) (h : ¬ e.IsFresh now) :
    ¬ e.IsFresh later := fun hfresh => h (by
  rw [Node.IsFresh] at hfresh ⊢
  linarith)

omit [DecidableEq κ] in
/-- A call goes on, and nodes may leave the list. -/
theorem Sound.shrink (hs : Sound s) (hnodes : s'.nodes.Sublist s.nodes)
    (hcurrent : s'.current = s.current) (hclock : s.clock ≤ s'.clock) : Sound s' where
  nodup := hs.nodup.sublist (hnodes.map _)
  length := hnodes.length_le.trans hs.length
  sorted := hs.sorted.sublist hnodes
  stale hnone e he :=
    not_isFresh_mono hclock (hs.stale (hcurrent ▸ hnone) e (hnodes.subset he))

/-- What is chosen from a list in order is the best of it. -/
theorem sound_choose (i : ℕ) (hnodup : (s.nodes.map (·.hash)).Nodup) (hlength : s.nodes.length ≤ maxNodes)
    (hsorted : s.nodes.Pairwise Node.Precedes) (hclock : s.clock = now) :
    Sound (s.choose i now) ∧ (s.choose i now).HasBest now := by
  have hnodes : (s.choose i now).nodes = s.nodes := by
    rw [State.choose]
    split
    · rfl
    · split_ifs
      · rfl
      · rfl
  have hclock' : (s.choose i now).clock = now := by
    rw [← hclock, State.choose]
    split
    · rfl
    · split_ifs
      · rfl
      · rfl
  have hcurrent : ∀ best, selectBestPropNode s.nodes now = some best →
      (s.choose i now).current = some best := fun best hbest => by
    rw [State.choose, hbest]
    dsimp only
    split_ifs with heq
    · exact heq
    · rfl
  refine ⟨⟨hnodes ▸ hnodup, hnodes ▸ hlength, hnodes ▸ hsorted, fun hnone e he => ?_⟩, ?_⟩
  · rw [hnodes] at he
    rw [hclock']
    refine not_isFresh_of_selectBest ?_ e he
    by_contra hne
    obtain ⟨best, hbest⟩ := Option.ne_none_iff_exists'.1 hne
    rw [hcurrent best hbest] at hnone
    cases hnone
  · rintro ⟨e, he, heligible⟩
    rw [hnodes] at he
    obtain ⟨b, hb⟩ : ∃ b, s.nodes.find? (Node.IsEligible now ·) = some b :=
      Option.isSome_iff_exists.1 (find?_isSome.2 ⟨e, he, decide_eq_true heligible⟩)
    have hbest : b.IsEligible now := of_decide_eq_true (find?_some (p := (decide <| Node.IsEligible now ·)) hb)
    refine ⟨b, hnodes ▸ mem_of_find?_eq_some hb, hbest, hcurrent _ ?_,
      fun e he heligible => ?_⟩
    · rw [selectBestPropNode, hb]
    · rw [hnodes] at he
      exact precedes_of_find? hsorted hb he (decide_eq_true heligible)

/-- Any step of a call keeps the list as it should be, and after a choice the best
    node is current. -/
theorem Sound.advance {proc : Proc κ} (hs : Sound s) (hclock : s.clock ≤ now) :
    Sound ({ s with clock := now }.advance i now proc) ∧
      (proc.IsChoosing → ({ s with clock := now }.advance i now proc).HasBest now) := by
  rcases proc with ⟨hash, hops, seen⟩ | _ | seen | best
  · have hchosen : Sound ({ s with clock := now }.handlePropagationAnnounce i hash hops seen now) ∧
        ({ s with clock := now }.handlePropagationAnnounce i hash hops seen now).HasBest now := by
      refine sound_choose i ?_ (length_take_le _ _) ?_ rfl
      · refine Nodup.sublist ((take_sublist _ _).map _) ?_
        refine ((perm_insertionSort _ _).map _).nodup_iff.2 ?_
        exact (nodup_heard hs.nodup).sublist (filter_sublist.map _)
      · exact (pairwise_insertionSort _ _).sublist (take_sublist _ _)
    exact ⟨hchosen.1, fun _ => hchosen.2⟩
  · rw [State.advance, State.checkPropagationFailover]
    rcases hcurrent : s.current with _ | current
    · -- There is no current node: none in the list is fresh.
      dsimp only
      refine ⟨hs.shrink (.refl _) hcurrent.symm hclock, fun _ => ?_⟩
      rintro ⟨e, he, -, hfresh⟩
      exact absurd hfresh (not_isFresh_mono hclock (hs.stale hcurrent e he))
    · dsimp only
      split_ifs with hempty
      · refine ⟨hs.shrink (.refl _) hcurrent.symm hclock, fun _ => ?_⟩
        rintro ⟨e, he, -⟩
        change e ∈ s.nodes at he
        rw [hempty] at he
        cases he
      · have hforgiven := map_forgiven_failed current s.nodes
        have hchosen := sound_choose i
          (s := { s with clock := now, nodes := failed current s.nodes, current := some current })
          ?_ ?_ ?_ rfl
        · exact ⟨hchosen.1, fun _ => hchosen.2⟩
        · have hmap := congrArg (List.map Node.hash) hforgiven
          rw [List.map_map, List.map_map] at hmap
          exact hmap ▸ hs.nodup
        · have hlength := congrArg List.length hforgiven
          rw [length_map, length_map] at hlength
          exact hlength ▸ hs.length
        · have hmap : ∀ l : List (Node κ), (l.map .forgiven).Pairwise Node.Precedes ↔
              l.Pairwise Node.Precedes := fun l => pairwise_map
          rw [← hmap, hforgiven, hmap]
          exact hs.sorted
  · exact ⟨hs.shrink filter_sublist rfl hclock, fun h => h.elim⟩
  · exact ⟨hs.shrink (.refl _) rfl hclock, fun h => h.elim⟩

theorem Sound.next {e : Event κ} (hs : Sound s) (h : next s e = some s') : Sound s' := by
  rcases e with ⟨i, hash, hops, now⟩ | i | ⟨i, now⟩ | ⟨i, now⟩
  · obtain ⟨⟨-, hclock⟩, heq⟩ := Option.ite_none_right_eq_some.1 h
    cases heq
    exact hs.shrink (.refl _) rfl hclock
  · obtain ⟨-, heq⟩ := Option.ite_none_right_eq_some.1 h
    cases heq
    exact hs.shrink (.refl _) rfl le_rfl
  · obtain ⟨⟨-, hclock⟩, heq⟩ := Option.ite_none_right_eq_some.1 h
    cases heq
    exact hs.shrink (.refl _) rfl hclock
  · obtain ⟨hclock, heq⟩ := Option.ite_none_right_eq_some.1 h
    obtain ⟨proc, -, rfl⟩ := Option.map_eq_some_iff.1 heq
    exact (hs.advance hclock).1

/-! ## Telling the router -/

/-- The calls that have yet to tell the router are listed, and what the last of them
    has chosen, or else what the router was told, is current. -/
structure Told (s : State κ) : Prop where
  nodup : s.choices.Nodup
  listed : ∀ i, i ∈ s.choices ↔ ∃ best, s.procs i = some (.telling best)
  last : ∀ i ∈ s.choices.getLast?, ∃ best, s.procs i = some (.telling best) ∧
    s.current = some best
  outbound : s.choices = [] → s.outbound = s.current

omit [DecidableEq κ] in
theorem procs_setProc {proc : Option (Proc κ)} :
    (s.setProc i proc).procs j = if j = i then proc else s.procs j :=
  Function.update_apply _ _ _ _

omit [DecidableEq κ] in
/-- A call that has nothing to tell goes on. -/
theorem Told.setProc {proc : Option (Proc κ)} (hs : Told s)
    (hold : ∀ best, s.procs i ≠ some (.telling best))
    (hproc : ∀ best, proc ≠ some (.telling best)) : Told (s.setProc i proc) := by
  have hnot : i ∉ s.choices := fun hi => by
    obtain ⟨best, hbest⟩ := (hs.listed i).1 hi
    exact hold best hbest
  refine ⟨hs.nodup, fun j => ?_, fun j hj => ?_, hs.outbound⟩
  · change j ∈ s.choices ↔ _
    rw [procs_setProc]
    split_ifs with hji
    · rw [hji]
      exact iff_of_false hnot fun ⟨best, hbest⟩ => hproc best hbest
    · exact hs.listed j
  · obtain ⟨best, hbest, hcurrent⟩ := hs.last j hj
    refine ⟨best, ?_, hcurrent⟩
    rw [procs_setProc, if_neg]
    · exact hbest
    · rintro rfl
      exact hold best hbest

omit [DecidableEq κ] in
/-- The list and the clock do not matter. -/
theorem Told.set (hs : Told s) (nodes : List (Node κ)) (clock : ℚ) :
    Told { s with nodes, clock } := ⟨hs.nodup, hs.listed, hs.last, hs.outbound⟩

theorem Told.choose (hs : Told s) (hold : ∀ best, s.procs i ≠ some (.telling best)) :
    Told (s.choose i now) := by
  rw [State.choose]
  split
  · exact hs.setProc hold fun _ h => by cases h
  next best hbest =>
    split_ifs with hcurrent
    · exact hs.setProc hold fun _ h => by cases h
    · have hnot : i ∉ s.choices := fun hi => by
        obtain ⟨best, hbest⟩ := (hs.listed i).1 hi
        exact hold best hbest
      refine ⟨?_, fun j => ?_, fun j hj => ?_, fun hnil => ?_⟩
      · exact nodup_append.2 ⟨hs.nodup, nodup_singleton i, fun a ha b hb => by
          rw [mem_singleton.1 hb]
          exact fun heq => hnot (heq ▸ ha)⟩
      · change j ∈ s.choices ++ [i] ↔ _
        rw [mem_append, mem_singleton, procs_setProc]
        split_ifs with hji
        · exact iff_of_true (.inr hji) ⟨best, rfl⟩
        · rw [or_iff_left hji]
          exact hs.listed j
      · change j ∈ (s.choices ++ [i]).getLast? at hj
        rw [getLast?_append, getLast?_singleton, Option.some_or] at hj
        cases hj
        exact ⟨best, by rw [procs_setProc, if_pos rfl], rfl⟩
      · exact absurd hnil (append_ne_nil_of_right_ne_nil _ (cons_ne_nil _ _))

omit [DecidableEq κ] in
/-- The router is told of the oldest choice that it does not know. -/
theorem Told.tell {best : κ} (hs : Told s) (hproc : s.procs i = some (.telling best))
    (hturn : s.choices.head? = some i) : Told (s.tell i best) := by
  obtain ⟨rest, hrest⟩ := head?_eq_some_iff.1 hturn
  have hnodup := hs.nodup
  rw [hrest, nodup_cons] at hnodup
  have hchoices : (s.tell i best).choices = rest := by
    change s.choices.erase i = rest
    rw [hrest, erase_cons_head]
  refine ⟨hchoices ▸ hnodup.2, fun j => ?_, fun j hj => ?_, fun hnil => ?_⟩
  · rw [hchoices, State.tell, procs_setProc]
    split_ifs with hji
    · rw [hji]
      exact iff_of_false hnodup.1 fun ⟨best, hbest⟩ => by cases hbest
    · rw [← hs.listed j, hrest, mem_cons, or_iff_right hji]
  · -- Another choice has been made after this one.
    rw [hchoices] at hj
    have hlast : j ∈ s.choices.getLast? := by
      rw [hrest, getLast?_cons, Option.mem_def.1 hj]
      rfl
    obtain ⟨b, hb, hcurrent⟩ := hs.last j hlast
    refine ⟨b, ?_, hcurrent⟩
    rw [State.tell, procs_setProc, if_neg]
    · exact hb
    · rintro rfl
      exact hnodup.1 (mem_of_getLast? hj)
  · -- This was the last choice.
    rw [hchoices] at hnil
    have hlast : i ∈ s.choices.getLast? := by
      rw [hrest, hnil]
      rfl
    obtain ⟨b, hb, hcurrent⟩ := hs.last i hlast
    rw [hproc] at hb
    cases hb
    exact hcurrent.symm

theorem Told.next {e : Event κ} (hs : Told s) (hturn : InTurn s e) (h : next s e = some s') :
    Told s' := by
  -- Only a call that is about to tell the router has to do with the choices.
  have hother : ∀ {i : ℕ} {proc : Option (Proc κ)}, s.procs i = proc →
      (∀ best, proc ≠ some (.telling best)) → ∀ best, s.procs i ≠ some (.telling best) :=
    fun hproc hne best hbest => hne best (hproc.symm.trans hbest)
  have hset := fun clock => hs.set s.nodes clock
  rcases e with ⟨i, hash, hops, now⟩ | i | ⟨i, now⟩ | ⟨i, now⟩
  · obtain ⟨⟨hnone, -⟩, heq⟩ := Option.ite_none_right_eq_some.1 h
    cases heq
    exact (hset now).setProc (hother (Option.isNone_iff_eq_none.1 hnone) (by simp)) (by simp)
  · obtain ⟨hnone, heq⟩ := Option.ite_none_right_eq_some.1 h
    cases heq
    exact hs.setProc (hother (Option.isNone_iff_eq_none.1 hnone) (by simp)) (by simp)
  · obtain ⟨⟨hnone, -⟩, heq⟩ := Option.ite_none_right_eq_some.1 h
    cases heq
    exact (hset now).setProc (hother (Option.isNone_iff_eq_none.1 hnone) (by simp)) (by simp)
  · obtain ⟨-, heq⟩ := Option.ite_none_right_eq_some.1 h
    obtain ⟨proc, hproc, rfl⟩ := Option.map_eq_some_iff.1 heq
    rcases proc with ⟨hash, hops, seen⟩ | _ | seen | best
    · exact (hs.set _ now).choose (hother hproc (by simp))
    · rw [State.advance, State.checkPropagationFailover]
      split
      · exact (hset now).setProc (hother hproc (by simp)) (by simp)
      · split_ifs
        · exact (hset now).setProc (hother hproc (by simp)) (by simp)
        · exact (hs.set _ now).choose (hother hproc (by simp))
    · exact (hs.set _ now).setProc (hother hproc (by simp)) (by simp)
    · exact (hset now).tell hproc (hturn ((hs.listed i).2 ⟨best, hproc⟩))

/-- In the runs in which the router is told of the choices in their order: when all
    calls have finished, the router has the current node. And in all of them the list
    has no hash twice and is within its bound, and after an announce or a failure the
    best of the nodes that will do is current. -/
theorem choices_told (s : State κ) (h : adapter.Reach InTurn s) :
    ((∀ i, s.procs i = none) → s.outbound = s.current) ∧
      ((s.nodes.map (·.hash)).Nodup ∧ s.nodes.length ≤ maxNodes) ∧
      ∀ i now s' proc, s.procs i = some proc → proc.IsChoosing →
        next s (.step i now) = some s' → s'.HasBest now := by
  have hsound : Sound s := by
    refine h.induction ?_ fun s e s' hs _ hstep => hs.next hstep
    rintro s ⟨clock, rfl⟩
    exact ⟨nodup_nil, Nat.zero_le _, Pairwise.nil, fun _ e he => by cases he⟩
  have htold : Told s := by
    refine h.induction ?_ fun s e s' hs hturn hstep => hs.next hturn hstep
    rintro s ⟨clock, rfl⟩
    refine ⟨nodup_nil, fun i => ?_, fun i hi => (by cases hi), fun _ => rfl⟩
    exact iff_of_false not_mem_nil fun ⟨best, hbest⟩ => by cases hbest
  refine ⟨fun hnone => htold.outbound ?_, ⟨hsound.nodup, hsound.length⟩, ?_⟩
  · rw [eq_nil_iff_forall_not_mem]
    intro i hi
    obtain ⟨best, hbest⟩ := (htold.listed i).1 hi
    rw [hnone i] at hbest
    cases hbest
  · intro i now s' proc hproc hchoosing hstep
    obtain ⟨hclock, heq⟩ := Option.ite_none_right_eq_some.1 hstep
    obtain ⟨proc', hproc', rfl⟩ := Option.map_eq_some_iff.1 heq
    rw [hproc] at hproc'
    cases hproc'
    exact (hsound.advance hclock).2 hchoosing

/-! ## Two announces at once -/

/-- A node three hops away announces itself, and before the router has been told of
    it, one that is nearer does. -/
def nearerNode : List (Event ℕ) :=
  [.announce 0 7 3 100, .step 0 100, .announce 1 8 1 101, .step 1 101]

def toldInOrder : List (Event ℕ) := nearerNode ++ [.step 0 102, .step 1 102]

def toldInReverse : List (Event ℕ) := nearerNode ++ [.step 1 102, .step 0 102]

/-- The router is told of the two choices in their order. -/
theorem choices_told_nearer : ∃ s : State ℕ, s.current = some 8 ∧
    ((∀ i, s.procs i = none) → s.outbound = s.current) := by
  obtain ⟨s, hs, hcurrent⟩ :
      ∃ s ∈ toldInOrder.foldlM (fun (s : State ℕ) e => if InTurn s e then next s e else none) {},
        s.current = some 8 := by
    decide +kernel
  exact ⟨s, hcurrent,
    (choices_told s (.foldlM (.init ⟨0, rfl⟩) hs)).1⟩

/-- The call of an event. -/
def Event.call : Event κ → ℕ
  | .announce i _ _ _ | .fail i | .prune i _ | .step i _ => i

/-- A step leaves the other calls alone. -/
theorem procs_next {e : Event κ} (hj : j ≠ e.call) (h : next s e = some s') :
    s'.procs j = s.procs j := by
  have hset : ∀ (s₁ : State κ) proc, s₁.procs = s.procs →
      (s₁.setProc e.call proc).procs j = s.procs j :=
    fun s₁ proc heq => by rw [procs_setProc, if_neg hj, heq]
  have hchoose : ∀ (s₁ : State κ) now, s₁.procs = s.procs →
      (s₁.choose e.call now).procs j = s.procs j := fun s₁ now heq => by
    rw [State.choose]
    split
    · exact hset _ _ heq
    · split_ifs
      all_goals exact hset _ _ heq
  rcases e with ⟨i, hash, hops, now⟩ | i | ⟨i, now⟩ | ⟨i, now⟩
  · obtain ⟨-, heq⟩ := Option.ite_none_right_eq_some.1 h
    cases heq
    exact hset _ _ rfl
  · obtain ⟨-, heq⟩ := Option.ite_none_right_eq_some.1 h
    cases heq
    exact hset _ _ rfl
  · obtain ⟨-, heq⟩ := Option.ite_none_right_eq_some.1 h
    cases heq
    exact hset _ _ rfl
  · obtain ⟨-, heq⟩ := Option.ite_none_right_eq_some.1 h
    obtain ⟨proc, hproc, rfl⟩ := Option.map_eq_some_iff.1 heq
    rcases proc with ⟨hash, hops, seen⟩ | _ | seen | best
    · exact hchoose _ _ rfl
    · rw [State.advance, State.checkPropagationFailover]
      split
      · exact hset _ _ rfl
      · split_ifs
        · exact hset _ _ rfl
        · exact hchoose _ _ rfl
    all_goals exact hset _ _ rfl

theorem procs_foldlM {l : List (Event κ)} (hl : ∀ e ∈ l, j ≠ e.call)
    (h : l.foldlM next s = some s') : s'.procs j = s.procs j := by
  induction l generalizing s with
  | nil =>
    cases h
    rfl
  | cons e l ih =>
    rw [foldlM_cons] at h
    obtain ⟨s₁, hs₁, h⟩ := Option.bind_eq_some_iff.1 h
    rw [ih (fun e he => hl e (mem_cons_of_mem _ he)) h,
      procs_next (hl e mem_cons_self) hs₁]

/-- When the router is told of the second choice first, it is left with the first one. -/
theorem choices_told_fails : ∃ s : State ℕ, adapter.Reachable s ∧ (∀ i, s.procs i = none) ∧
    s.current = some 8 ∧ s.outbound = some 7 := by
  obtain ⟨s, hs, hfirst, hsecond, hcurrent, houtbound⟩ :
      ∃ s ∈ toldInReverse.foldlM next ({} : State ℕ),
        (s.procs 0).isNone ∧ (s.procs 1).isNone ∧ s.current = some 8 ∧ s.outbound = some 7 := by
    decide +kernel
  refine ⟨s, .foldlM (.init ⟨0, rfl⟩) hs, fun i => ?_, hcurrent, houtbound⟩
  by_cases hi : i = 0
  · exact hi ▸ Option.isNone_iff_eq_none.1 hfirst
  · by_cases hi' : i = 1
    · exact hi' ▸ Option.isNone_iff_eq_none.1 hsecond
    · refine procs_foldlM (s := {}) (fun e he => ?_) hs
      simp only [toldInReverse, nearerNode, cons_append, nil_append, mem_cons,
        not_mem_nil, or_false] at he
      rcases he with rfl | rfl | rfl | rfl | rfl | rfl
      all_goals assumption

end ReticulumPi.Messaging.Propagation
