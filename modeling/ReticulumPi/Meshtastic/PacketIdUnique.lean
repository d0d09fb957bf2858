import ReticulumPi.Lib.Transition
import ReticulumPi.Meshtastic.PacketIds

/-!
# No packet identifier is handed out twice

Any number of allocators, in any number of processes, share one state file
and one file of the node number. What is handed out, and what an allocator
still holds of its block, lies at or below the high watermark of the state
(`Covers`), which only grows, for one and the same node (`Grown`); a new block
begins above it. So the blocks are apart, across crashes and failed writes.
-/

namespace ReticulumPi.Meshtastic

open Prog PyStr List

/-! ## The contents of the files -/

/-- What the checks establish. -/
structure State.Valid (st : State) : Prop where
  schema : st.schema.isSchema
  node : minNodeNum ≤ st.nodeNum ∧ st.nodeNum ≤ maxNodeNum
  watermark : 1 ≤ st.highWatermark ∧ st.highWatermark ≤ maxPacketId

theorem natIn_eq_some {lo hi n : ℕ} {j : Json} :
    j.natIn lo hi = some n ↔ j = .int n ∧ lo ≤ n ∧ n ≤ hi := by
  cases j <;> simp only [Json.natIn, Option.ite_none_right_eq_some, Option.some.injEq, reduceCtorEq,
    false_and, Json.int.injEq]
  omega

variable {st : State}

theorem checkState_ok {o : StateObject} (h : checkState o = .ok st) : st.Valid := by
  rw [checkState] at h
  split_ifs at h with hs
  split at h
  · cases h
  · next n hn =>
    split at h
    · cases h
    · next m hm =>
      split at h
      · cases h
      · cases h
        exact ⟨hs, (natIn_eq_some.1 hn).2, (natIn_eq_some.1 hm).2⟩

theorem checkState_statePayload (h : st.Valid) : checkState (statePayload st) = .ok st := by
  have hn := natIn_eq_some.2 ⟨rfl, h.node⟩
  have hm := natIn_eq_some.2 ⟨rfl, h.watermark⟩
  have he : enrollmentOf (.str st.enrollment.text) = some st.enrollment := by
    cases st.enrollment <;> rfl
  simp only [checkState, statePayload, h.schema, not_true_eq_false, if_false, hn, hm, he]

variable {f : StateFile}

theorem loadState_ok (h : loadState f = .ok st) : st.Valid := by
  cases f with
  | object o => exact checkState_ok h
  | _ => cases h

/-- The node number in the node's own file. -/
def nodeNumOf : NodeFile → Option ℕ
  | .text text => (parseNodeNum text).toOption
  | _ => none

theorem nodeNumOf_format {n : ℕ} (h : minNodeNum ≤ n ∧ n ≤ maxNodeNum) :
    nodeNumOf (.text (formatHex8 n ++ ['\n'])) = some n := by
  have hstrip : strip (formatHex8 n ++ ['\n']) = formatHex8 n :=
    strip_append isSpace_of_mem_formatHex8 fun c hc => mem_singleton.1 hc ▸ rfl
  have hlt : n < 16 ^ 8 := by
    have hmax : maxNodeNum < 16 ^ 8 := by norm_num [maxNodeNum]
    omega
  rw [nodeNumOf, parseNodeNum, hstrip, parseHex8_formatHex8 hlt]
  simp only [if_pos h]
  rfl

/-! ## Blocks and the watermark -/

/-- The identifiers reserved in a state file, each with the node it is of. -/
def Covers (f : StateFile) (p : ℕ × ℕ) : Prop :=
  ∃ st, loadState f = .ok st ∧ st.nodeNum = p.1 ∧ 1 ≤ p.2 ∧ p.2 ≤ st.highWatermark

/-- The state is still of the same node, and reserves no less. -/
def Grown (f f' : StateFile) : Prop := ∀ st, loadState f = .ok st →
  ∃ st', loadState f' = .ok st' ∧ st'.nodeNum = st.nodeNum ∧ st.highWatermark ≤ st'.highWatermark

/-- What an allocator may hand out without reserving more. -/
def Allocator.Owns (a : Allocator) (p : ℕ × ℕ) : Prop :=
  p.1 = a.nodeNum ∧ a.nextId ≤ p.2 ∧ p.2 < a.nextId + a.remaining

theorem Grown.refl (f : StateFile) : Grown f f := fun st h => ⟨st, h, rfl, le_rfl⟩

theorem Grown.trans {g k : StateFile} (h : Grown f g) (h' : Grown g k) : Grown f k := by
  intro st hst
  obtain ⟨st₁, hst₁, hn₁, hw₁⟩ := h st hst
  obtain ⟨st₂, hst₂, hn₂, hw₂⟩ := h' st₁ hst₁
  exact ⟨st₂, hst₂, hn₂.trans hn₁, hw₁.trans hw₂⟩

variable {p : ℕ × ℕ}

theorem Covers.grown {f' : StateFile} (h : Covers f p) (hg : Grown f f') : Covers f' p := by
  obtain ⟨st, hst, hn, h1, hw⟩ := h
  obtain ⟨st', hst', hn', hw'⟩ := hg st hst
  exact ⟨st', hst', hn'.trans hn, h1, hw.trans hw'⟩

theorem grown_write {st' : State} (h : loadState f = .ok st) (hv : st'.Valid)
    (hn : st'.nodeNum = st.nodeNum) (hw : st.highWatermark ≤ st'.highWatermark) :
    Grown f (.object (statePayload st')) := fun st₁ h₁ => by
  cases h.symm.trans h₁
  exact ⟨st', checkState_statePayload hv, hn, hw⟩

/-- A new block has just been reserved: it ends at the watermark, begins above
    the one there was in `f`, and the enrolment is complete. -/
structure Opened (f : StateFile) (st : State) (s : Session) : Prop where
  state : loadState s.state = .ok st
  complete : st.enrollment = .complete
  node : nodeNumOf s.node = some st.nodeNum
  own : s.alloc.nodeNum = st.nodeNum
  first : 1 ≤ s.alloc.nextId
  some : 0 < s.alloc.remaining
  last : s.alloc.nextId + s.alloc.remaining = st.highWatermark + 1
  above : ∀ st₀, loadState f = .ok st₀ →
    st.nodeNum = st₀.nodeNum ∧ s.alloc.nextId = st₀.highWatermark + 1

theorem Opened.grown {s : Session} (h : Opened f st s) : Grown f s.state := fun st₀ h₀ => by
  obtain ⟨hn, hnext⟩ := h.above st₀ h₀
  have hlast := h.last
  have hsome := h.some
  exact ⟨st, h.state, hn, by omega⟩

theorem Opened.covers {s : Session} (h : Opened f st s)
    (hp : s.alloc.Owns p) : Covers s.state p ∧ ¬Covers f p := by
  obtain ⟨hn, hlo, hhi⟩ := hp
  have hlast := h.last
  have hfirst := h.first
  refine ⟨⟨st, h.state, (hn.trans h.own).symm, by omega, by omega⟩, ?_⟩
  rintro ⟨st₀, h₀, -, -, hle⟩
  have hnext := (h.above st₀ h₀).2
  omega

/-! ## The steps of an operation -/

variable {w : World} {s : Session} {α : Type}

/-- The instant apart, nothing has changed. -/
def Same (s s' : Session) : Prop :=
  s'.state = s.state ∧ s'.node = s.node ∧ s'.alloc = s.alloc

theorem Same.refl (s : Session) : Same s s := ⟨rfl, rfl, rfl⟩

variable {fault : ℕ → Fault} {Q : Unit → Session → Prop} {E : Error → Session → Prop}
  {H : Session → Prop}

theorem wp_step {effect : Session → Session} (hQ : Q () (effect { s with tick := s.tick + 1 }))
    (hE : E .osError { s with tick := s.tick + 1 })
    (hE' : E .osError (effect { s with tick := s.tick + 1 }))
    (hH : H { s with tick := s.tick + 1 }) (hH' : H (effect { s with tick := s.tick + 1 })) :
    wp (step fault effect) Q E H s :=
  wp_perform hQ hE hE' hH hH'

/-- A step without effect keeps what does not depend on the instant. -/
theorem wp_step_id {I : Session → Prop} (hI : I { s with tick := s.tick + 1 }) :
    wp (step fault id) (fun _ => I) (fun _ => I) I s := wp_step hI hI hI hI hI

theorem wp_loadStateLocked : wp (loadStateLocked w)
    (fun st s' => loadState s.state = .ok st ∧ Same s s') (fun _ => Same s) (Same s) s := by
  have hsame : Same s { s with tick := s.tick + 1 } := ⟨rfl, rfl, rfl⟩
  rw [loadStateLocked, wp_bind, wp_tryCatch]
  refine wp_mono (wp_step_id hsame) (fun _ s' h => ?_) (fun _ _ h => h) (fun _ h => h)
  rw [wp_bind, wp_get]
  cases hl : loadState s'.state with
  | error message => exact h
  | ok st => exact ⟨h.1 ▸ hl, h⟩

theorem wp_readNodeNum (file : NodeFile) : wp (readNodeNum w file)
    (fun r s' => (∀ n, r = .ok n → nodeNumOf file = some n) ∧ Same s s') (fun _ => Same s)
    (Same s) s := by
  have hsame : Same s { s with tick := s.tick + 1 } := ⟨rfl, rfl, rfl⟩
  cases file with
  | text text =>
    rw [readNodeNum, wp_tryCatch, wp_bind]
    refine wp_mono (wp_step_id hsame) (fun _ s' h => ⟨fun n hn => ?_, h⟩)
      (fun _ _ h => ⟨nofun, h⟩) (fun _ h => h)
    rw [nodeNumOf, hn]
    rfl
  | _ => exact ⟨nofun, .refl s⟩

theorem wp_loadNodeNumLocked (strict : Bool) : wp (loadNodeNumLocked w strict)
    (fun r s' => (strict → ∀ n, r = some n → nodeNumOf s.node = some n) ∧ Same s s')
    (fun _ => Same s) (Same s) s := by
  rw [loadNodeNumLocked, wp_bind, wp_get]
  by_cases ha : s.node = .absent
  · rw [if_pos ha, wp_ite]
    split_ifs with hs
    · exact .refl s
    · exact ⟨fun h => absurd h hs, .refl s⟩
  · rw [if_neg ha, wp_bind]
    refine wp_mono (wp_readNodeNum s.node) (fun r s' h => ?_) (fun _ _ h => h) (fun _ h => h)
    cases r with
    | ok n =>
      refine ⟨fun _ m hm => ?_, h.2⟩
      cases hm
      exact h.1 n rfl
    | error message =>
      dsimp only
      rw [wp_ite]
      split_ifs
      · exact h.2
      · exact ⟨nofun, h.2⟩

/-- Reserving a block after the watermark of the state. -/
theorem wp_reserveAfterLocked (hst : loadState s.state = .ok st)
    (hc : st.enrollment = .complete) (hnode : nodeNumOf s.node = some st.nodeNum)
    (hown : s.alloc.nodeNum = st.nodeNum) : wp (reserveAfterLocked w st)
      (fun _ s' => st.highWatermark < maxPacketId ∧ ∃ st', Opened s.state st' s')
      (fun _ s' => Grown s.state s'.state ∧ s'.alloc = s.alloc)
      (fun s' => Grown s.state s'.state) s := by
  have hv := loadState_ok hst
  rw [reserveAfterLocked, wp_ite]
  split_ifs with hmax
  · exact ⟨.refl _, rfl⟩
  have hpos := s.alloc.blockSize_pos
  have hle : min s.alloc.blockSize (maxPacketId - st.highWatermark) ≤
      maxPacketId - st.highWatermark := min_le_right _ _
  have hone : 1 ≤ min s.alloc.blockSize (maxPacketId - st.highWatermark) :=
    le_min hpos (by omega)
  generalize hsize : min s.alloc.blockSize (maxPacketId - st.highWatermark) = size at hle hone
  have hv' : ({ st with highWatermark := st.highWatermark + size } : State).Valid :=
    ⟨hv.schema, hv.node, by have := hv.watermark; dsimp only; omega⟩
  have hg := grown_write hst hv' rfl (Nat.le_add_right _ _)
  rw [wp_bind]
  change wp (do
    writeStateLocked w { st with
      highWatermark := st.highWatermark + min s.alloc.blockSize (maxPacketId - st.highWatermark) }
    modifyAlloc fun a => { a with
      nextId := st.highWatermark + 1
      remaining := min s.alloc.blockSize (maxPacketId - st.highWatermark) }) _ _ _ s
  rw [hsize, wp_bind]
  refine wp_step ⟨by omega, { st with highWatermark := st.highWatermark + size },
    checkState_statePayload hv', hc, hnode, hown, ?_, ?_, ?_, ?_⟩ ⟨.refl _, rfl⟩ ⟨hg, rfl⟩
    (.refl _) hg
  · exact Nat.le_add_left 1 _
  · exact hone
  · exact Nat.add_right_comm _ _ _
  · intro st₀ h₀
    cases hst.symm.trans h₀
    exact ⟨rfl, rfl⟩

theorem wp_modifyAlloc {f : Allocator → Allocator} :
    wp (modifyAlloc f) Q E H s = Q () { s with alloc := f s.alloc } := rfl

theorem wp_openBlock (hst : loadState s.state = .ok st)
    (hc : st.enrollment = .complete) (hnode : nodeNumOf s.node = some st.nodeNum) :
    wp (openBlock w st) (fun _ s' => ∃ st', Opened s.state st' s')
      (fun _ s' => Grown s.state s'.state) (fun s' => Grown s.state s'.state) s := by
  rw [openBlock, wp_bind, wp_modifyAlloc]
  refine wp_mono (wp_reserveAfterLocked ?_ hc ?_ ?_) (fun _ _ h => h.2) (fun _ _ h => h.1)
    (fun _ h => h)
  · exact hst
  · exact hnode
  · rfl

/-- Completing the enrolment moves neither the node nor the watermark. -/
theorem wp_takeUp (hst : loadState s.state = .ok st) :
    wp (takeUp w st) (fun _ s' => ∃ st', Opened s.state st' s')
      (fun _ s' => Grown s.state s'.state) (fun s' => Grown s.state s'.state) s := by
  have hv := loadState_ok hst
  cases hc : st.enrollment with
  | pending =>
    have hv' : ({ st with enrollment := .complete } : State).Valid :=
      ⟨hv.schema, hv.node, hv.watermark⟩
    have hg := grown_write hst hv' rfl le_rfl
    have hload := checkState_statePayload hv'
    simp only [takeUp, hc]
    rw [wp_bind]
    refine wp_step ?_ (.refl _) (.refl _) (.refl _) (.refl _)
    rw [wp_bind]
    refine wp_step ?_ (.refl _) hg (.refl _) hg
    refine wp_mono (wp_openBlock hload rfl (nodeNumOf_format hv.node)) ?_
      (fun _ _ h => hg.trans h) (fun _ h => hg.trans h)
    rintro _ s' ⟨st', h⟩
    refine ⟨st', { h with above := fun st₀ h₀ => ?_ }⟩
    cases hst.symm.trans h₀
    exact h.above { st with enrollment := .complete } hload
  | complete =>
    simp only [takeUp, hc]
    rw [wp_bind]
    refine wp_mono (wp_loadNodeNumLocked true) ?_ (fun _ s' h => h.1 ▸ .refl _)
      (fun s' h => h.1 ▸ .refl _)
    rintro n s' ⟨hn, hstate, hnode, -⟩
    rw [wp_ite]
    split_ifs with hne
    · exact hstate ▸ .refl _
    · have hfile : nodeNumOf s'.node = some st.nodeNum :=
        hnode ▸ hn rfl _ (not_not.1 hne)
      rw [← hstate] at hst ⊢
      exact wp_openBlock hst hc hfile

theorem wp_newNodeNum (previous : Option ℕ) : wp (newNodeNum w previous)
    (fun n s' => (minNodeNum ≤ n ∧ n ≤ maxNodeNum) ∧ Same s s') (fun _ => Same s) (Same s) s := by
  refine ⟨?_, rfl, rfl, rfl⟩
  have hlt := w.randbelow_lt (s.tick + w.redraws s.tick previous)
  generalize w.randbelow _ = n at hlt
  simp only [minNodeNum, maxNodeNum]
  omega

theorem wp_enrollAs (hf : ∀ f', Grown f f') (hf' : ∀ st, loadState f ≠ .ok st)
    {n : ℕ} (hn : minNodeNum ≤ n ∧ n ≤ maxNodeNum) :
    wp (enrollAs w n) (fun _ s' => ∃ st', Opened f st' s')
      (fun _ s' => Grown f s'.state) (fun s' => Grown f s'.state) s := by
  have hv : (⟨.int stateSchema, n, s.alloc.blockSize, .complete⟩ : State).Valid :=
    ⟨rfl, hn, s.alloc.blockSize_pos, s.alloc.blockSize_lt.le⟩
  rw [enrollAs, wp_bind]
  change wp (do
    writeStateLocked w ⟨.int stateSchema, n, s.alloc.blockSize, .pending⟩
    writeNodeNumLocked w n
    writeStateLocked w ⟨.int stateSchema, n, s.alloc.blockSize, .complete⟩
    modifyAlloc fun a => { a with
      nodeNum := n, nextId := 1, remaining := s.alloc.blockSize }) _ _ _ _
  rw [wp_bind]
  refine wp_step ?_ (hf _) (hf _) (hf _) (hf _)
  rw [wp_bind]
  refine wp_step ?_ (hf _) (hf _) (hf _) (hf _)
  rw [wp_bind]
  refine wp_step ?_ (hf _) (hf _) (hf _) (hf _)
  exact ⟨_, checkState_statePayload hv, rfl, nodeNumOf_format hn, rfl, le_rfl,
    s.alloc.blockSize_pos, Nat.add_comm _ _, fun st h => absurd h (hf' st)⟩

theorem wp_enroll (hs : s.state = .absent) :
    wp (enroll w) (fun _ s' => ∃ st', Opened s.state st' s')
      (fun _ s' => Grown s.state s'.state) (fun s' => Grown s.state s'.state) s := by
  have hnone : ∀ st, loadState s.state ≠ .ok st := by
    rw [hs]
    nofun
  have hg : ∀ f', Grown s.state f' := fun _ st h => absurd h (hnone st)
  rw [enroll, wp_bind]
  refine wp_mono (wp_loadNodeNumLocked false) (fun legacy s₁ _ => ?_) (fun _ _ _ => hg _)
    (fun _ _ => hg _)
  rw [wp_bind]
  exact wp_mono (wp_newNodeNum legacy) (fun n s₂ h => wp_enrollAs hg hnone h.1)
    (fun _ _ _ => hg _) (fun _ _ => hg _)

/-! ## The operations -/

theorem wp_initializeLocked : wp (initializeLocked w) (fun _ s' => ∃ st', Opened s.state st' s')
    (fun _ s' => Grown s.state s'.state) (fun s' => Grown s.state s'.state) s := by
  rw [initializeLocked, wp_bind, wp_get, wp_ite]
  split_ifs with hs
  · exact wp_enroll hs
  · rw [wp_bind]
    refine wp_mono wp_loadStateLocked ?_ (fun _ s' h => h.1 ▸ .refl _) (fun s' h => h.1 ▸ .refl _)
    rintro st s' ⟨hst, hstate, -, -⟩
    rw [← hstate] at hst ⊢
    exact wp_takeUp hst

/-- What does not depend on the instant is the same when the lock is released,
    if the release does not fail. -/
theorem wp_underFileLock {x : AProg α} {Q : α → Session → Prop}
    (hx : ∀ s', Same s s' → wp x Q E H s')
    (hs : ∀ s', Same s s' → E .osError s' ∧ H s')
    (hQ : ∀ a s₁ s₂, Q a s₁ → Same s₁ s₂ → Q a s₂ ∧ E .osError s₂ ∧ H s₂)
    (hE : ∀ e s₁ s₂, E e s₁ → Same s₁ s₂ → E e s₂ ∧ E .osError s₂ ∧ H s₂) :
    wp (underFileLock w x) Q E H s := by
  have hone : ∀ s : Session, Same s { s with tick := s.tick + 1 } := fun s => ⟨rfl, rfl, rfl⟩
  have h₁ := hs _ (hone s)
  rw [underFileLock, wp_bind]
  refine wp_step ?_ h₁.1 h₁.1 h₁.2 h₁.2
  rw [wp_tryFinally]
  refine wp_mono (hx _ (hone s)) (fun a s₁ h => ?_) (fun e s₁ h => ?_) (fun _ h => h)
  · obtain ⟨h₁, h₂, h₃⟩ := hQ a s₁ _ h (hone s₁)
    exact wp_step h₁ h₂ h₂ h₃ h₃
  · obtain ⟨h₁, h₂, h₃⟩ := hE e s₁ _ h (hone s₁)
    exact wp_step h₁ h₂ h₂ h₃ h₃

theorem Opened.same {s₁ s₂ : Session} (h : Opened f st s₁) (hs : Same s₁ s₂) : Opened f st s₂ := by
  obtain ⟨hstate, hnode, halloc⟩ := hs
  exact ⟨hstate ▸ h.state, h.complete, hnode ▸ h.node, halloc ▸ h.own, halloc ▸ h.first,
    halloc ▸ h.some, halloc ▸ h.last, halloc ▸ h.above⟩

theorem wp_construct : wp (construct w) (fun _ s' => ∃ st', Opened s.state st' s')
    (fun _ s' => Grown s.state s'.state) (fun s' => Grown s.state s'.state) s := by
  refine wp_underFileLock (fun s' hs => ?_) (fun s' hs => ?_) (fun _ s₁ s₂ h hs => ?_)
    (fun _ s₁ s₂ h hs => ?_)
  · exact hs.1 ▸ wp_initializeLocked
  · exact ⟨hs.1 ▸ .refl _, hs.1 ▸ .refl _⟩
  · obtain ⟨st', h⟩ := h
    have h' := h.same hs
    exact ⟨⟨st', h'⟩, h'.grown, h'.grown⟩
  · have h' : Grown s.state s₂.state := hs.1 ▸ h
    exact ⟨h', h', h'⟩

theorem wp_reserveLocked : wp (reserveLocked w)
    (fun _ s' => (∃ st, loadState s.state = .ok st ∧ st.highWatermark < maxPacketId) ∧
      ∃ st', Opened s.state st' s')
    (fun _ s' => Grown s.state s'.state ∧ s'.alloc = s.alloc)
    (fun s' => Grown s.state s'.state) s := by
  have hsame : ∀ {s'}, Same s s' → Grown s.state s'.state ∧ s'.alloc = s.alloc := fun h =>
    ⟨h.1 ▸ .refl _, h.2.2⟩
  rw [reserveLocked, wp_bind]
  refine wp_mono wp_loadStateLocked ?_ (fun _ s' h => hsame h) (fun s' h => (hsame h).1)
  rintro st s₁ ⟨hst, hs₁⟩
  rw [wp_bind]
  change wp (if st.enrollment ≠ .complete then _ else _) _ _ _ _
  rw [wp_ite]
  split_ifs with hc hn
  · exact hsame hs₁
  · exact hsame hs₁
  · rw [wp_bind]
    refine wp_mono (wp_loadNodeNumLocked true) ?_ ?_ ?_
    · rintro n s₂ ⟨hnode, hs₂⟩
      have hs₁₂ : Same s s₂ := ⟨hs₂.1.trans hs₁.1, hs₂.2.1.trans hs₁.2.1, hs₂.2.2.trans hs₁.2.2⟩
      rw [wp_ite]
      split_ifs with hne
      · exact hsame hs₁₂
      · have hown : s₂.alloc.nodeNum = st.nodeNum := by
          rw [hs₂.2.2]
          exact (not_not.1 hn).symm
        have hfile : nodeNumOf s₂.node = some st.nodeNum := by
          rw [hs₂.2.1, hnode rfl _ (not_not.1 hne), ← hs₂.2.2, hown]
        have hst₂ : loadState s₂.state = .ok st := hs₁₂.1 ▸ hst
        refine wp_mono (wp_reserveAfterLocked hst₂ (not_not.1 hc) hfile hown) ?_ ?_ ?_
        · rintro _ s₃ ⟨hlt, h⟩
          exact ⟨⟨st, hst, hlt⟩, hs₁₂.1 ▸ h⟩
        · rintro _ s₃ ⟨hg, ha⟩
          exact ⟨hs₁₂.1 ▸ hg, ha.trans hs₁₂.2.2⟩
        · exact fun s₃ hg => hs₁₂.1 ▸ hg
    · rintro _ s₂ hs₂
      exact hsame ⟨hs₂.1.trans hs₁.1, hs₂.2.1.trans hs₁.2.1, hs₂.2.2.trans hs₁.2.2⟩
    · rintro s₂ hs₂
      exact hs₂.1.trans hs₁.1 ▸ .refl _

/-- When the block is reserved, but the release of the lock fails, it is kept. -/
theorem wp_reserveMore : wp (reserveMore w)
    (fun _ s' => (∃ st, loadState s.state = .ok st ∧ st.highWatermark < maxPacketId) ∧
      ∃ st', Opened s.state st' s')
    (fun _ s' => Grown s.state s'.state ∧ (s'.alloc = s.alloc ∨ ∃ st', Opened s.state st' s'))
    (fun s' => Grown s.state s'.state) s := by
  refine wp_underFileLock (fun s' hs => ?_) (fun s' hs => ?_) (fun _ s₁ s₂ h hs => ?_)
    (fun _ s₁ s₂ h hs => ?_)
  · obtain ⟨hstate, -, halloc⟩ := hs
    rw [← hstate, ← halloc]
    exact wp_mono wp_reserveLocked (fun _ _ h => h) (fun _ _ h => ⟨h.1, .inl h.2⟩) (fun _ h => h)
  · exact ⟨⟨hs.1 ▸ .refl _, .inl hs.2.2⟩, hs.1 ▸ .refl _⟩
  · obtain ⟨hroom, st', h⟩ := h
    have h' := h.same hs
    exact ⟨⟨hroom, st', h'⟩, ⟨h'.grown, .inr ⟨st', h'⟩⟩, h'.grown⟩
  · have hg : Grown s.state s₂.state := hs.1 ▸ h.1
    have h' : s₂.alloc = s.alloc ∨ ∃ st', Opened s.state st' s₂ :=
      h.2.imp hs.2.2.trans fun ⟨st', h⟩ => ⟨st', h.same hs⟩
    exact ⟨⟨hg, h'⟩, ⟨hg, h'⟩, hg⟩

/-- What may be handed out by the allocator `a`, without that being reserved in
    `f` for another: it is the allocator's own, or not reserved at all. -/
def Free (f : StateFile) (a : Allocator) (p : ℕ × ℕ) : Prop := a.Owns p ∨ ¬Covers f p

/-- After an operation of the allocator `a` on the state `f`. -/
structure Held (f : StateFile) (a : Allocator) (s : Session) : Prop where
  grown : Grown f s.state
  covers : ∀ p, s.alloc.Owns p → Covers s.state p
  free : ∀ p, s.alloc.Owns p → Free f a p

theorem Opened.held {s : Session} (h : Opened f st s) (a : Allocator) : Held f a s :=
  ⟨h.grown, fun _ hp => (h.covers hp).1, fun _ hp => .inr (h.covers hp).2⟩

variable {a : Allocator}

theorem held_same {s : Session} (ha : s.alloc = a)
    (hg : Grown f s.state) (h : ∀ p, a.Owns p → Covers f p) : Held f a s :=
  ⟨hg, fun p hp => (h p (ha ▸ hp)).grown hg, fun _ hp => .inl (ha ▸ hp)⟩

theorem wp_reserveIfEmpty (h : ∀ p, s.alloc.Owns p → Covers s.state p) :
    wp (reserveIfEmpty w) (fun _ s' => Held s.state s.alloc s' ∧ 0 < s'.alloc.remaining)
      (fun _ => Held s.state s.alloc) (fun s' => Grown s.state s'.state) s := by
  rw [reserveIfEmpty, wp_bind]
  change wp (if s.alloc.remaining = 0 then _ else _) _ _ _ _
  rw [wp_ite]
  split_ifs with hz
  · refine wp_mono wp_reserveMore ?_ ?_ (fun _ h => h)
    · rintro _ s' ⟨-, st', h'⟩
      exact ⟨h'.held _, h'.some⟩
    · rintro _ s' ⟨hg, ha | ⟨st', h'⟩⟩
      · exact held_same ha hg h
      · exact h'.held _
  · exact ⟨held_same rfl (.refl _) h, Nat.pos_of_ne_zero hz⟩

/-- After the allocator `a` has handed out `id`. -/
structure Taken (f : StateFile) (a : Allocator) (id : ℕ) (s : Session) : Prop
    extends Held f a s where
  taken : Covers s.state (s.alloc.nodeNum, id)
  takenFree : Free f a (s.alloc.nodeNum, id)
  gone : ¬s.alloc.Owns (s.alloc.nodeNum, id)

theorem wp_emit (h : Held f a s) (hpos : 0 < s.alloc.remaining) :
    wp emit (Taken f a) (fun _ => Held f a) (fun s' => Grown f s'.state) s := by
  have hfirst : s.alloc.Owns (s.alloc.nodeNum, s.alloc.nextId) :=
    ⟨rfl, le_rfl, Nat.lt_add_of_pos_right hpos⟩
  have hrest : ∀ p : ℕ × ℕ, p.1 = s.alloc.nodeNum → s.alloc.nextId + 1 ≤ p.2 →
      p.2 < s.alloc.nextId + 1 + (s.alloc.remaining - 1) → s.alloc.Owns p := fun p hn hlo hhi =>
    ⟨hn, by omega, by omega⟩
  rw [emit, wp_bind]
  change wp (if ¬(1 ≤ s.alloc.nextId ∧ s.alloc.nextId ≤ maxPacketId) then _ else _) _ _ _ _
  rw [wp_ite]
  split_ifs with hr
  · refine ⟨⟨h.grown, fun p hp => h.covers p (hrest p hp.1 hp.2.1 hp.2.2), fun p hp =>
      h.free p (hrest p hp.1 hp.2.1 hp.2.2)⟩, h.covers _ hfirst, h.free _ hfirst, fun hgone => ?_⟩
    exact absurd hgone.2.1 (Nat.not_succ_le_self _)
  · exact h

theorem wp_take (h : ∀ p, s.alloc.Owns p → Covers s.state p) :
    wp (take w) (Taken s.state s.alloc) (fun _ => Held s.state s.alloc)
      (fun s' => Grown s.state s'.state) s := by
  rw [take, wp_bind]
  exact wp_mono (wp_reserveIfEmpty h) (fun _ _ h => wp_emit h.1 h.2) (fun _ _ h => h)
    (fun _ h => h)

/-- Once all identifiers are reserved, an allocator without any hands out none. -/
theorem wp_take_exhausted (hz : s.alloc.remaining = 0)
    (hst : loadState s.state = .ok st) (hmax : maxPacketId ≤ st.highWatermark) :
    wp (take w) (fun _ _ => False) (fun _ _ => True) (fun _ => True) s := by
  rw [take, wp_bind, reserveIfEmpty, wp_bind]
  change wp (if s.alloc.remaining = 0 then _ else _) _ _ _ _
  rw [if_pos hz]
  refine wp_mono wp_reserveMore ?_ (fun _ _ _ => trivial) (fun _ _ => trivial)
  rintro _ s' ⟨⟨st₀, h₀, hlt⟩, -⟩
  cases hst.symm.trans h₀
  exact absurd hlt (not_lt.2 hmax)

/-! ## The allocators of one state file -/

/-- The block sizes that the constructor accepts. -/
def BlockSize : Type := { b : ℕ // 1 ≤ b ∧ b < maxPacketId }

/-- An allocator before `_initialize`. -/
def Allocator.new (b : BlockSize) : Allocator where
  blockSize := b.1
  blockSize_pos := b.2.1
  blockSize_lt := b.2.2

/-- The files, the allocators there are, and the pairs of node number and
    identifier handed out so far. -/
structure Shared where
  state : StateFile
  node : NodeFile
  tick : ℕ
  allocs : ℕ → Option Allocator
  issued : List (ℕ × ℕ)

/-- What may happen: an allocator is constructed, asked for an identifier, or
    gone with its process. -/
inductive Event
  | construct (l : ℕ) (b : BlockSize)
  | take (l : ℕ)
  | exit (l : ℕ)

/-- The state after an operation that has left `s'`, the allocator `new` in
    place of the one it was called on, and has handed out `out`. -/
def Shared.after (s : Shared) (l : ℕ) (s' : Session) (new : Option Allocator)
    (out : List (ℕ × ℕ)) : Shared where
  state := s'.state
  node := s'.node
  tick := s'.tick
  allocs := Function.update s.allocs l new
  issued := out ++ s.issued

/-- The files as an operation on the allocator `a` sees them. -/
def Shared.session (s : Shared) (a : Allocator) : Session := ⟨s.state, s.node, s.tick, a⟩

/-- The state after the constructor ended so; one that raises makes no allocator. -/
def Shared.constructed (s : Shared) (l : ℕ) : Res Error Unit × Session → Shared
  | (.ok _, s') => s.after l s' (some s'.alloc) []
  | (_, s') => s.after l s' none []

/-- The state after a call of `take` ended so; a call that is killed leaves no allocator. -/
def Shared.taken (s : Shared) (l : ℕ) : Res Error ℕ × Session → Shared
  | (.ok id, s') => s.after l s' (some s'.alloc) [(s'.alloc.nodeNum, id)]
  | (.raised _, s') => s.after l s' (some s'.alloc) []
  | (.halted, s') => s.after l s' none []

/-- The state after an event, if it can happen. -/
def Shared.next (w : World) (s : Shared) : Event → Option Shared
  | .construct l b => some (s.constructed l (construct w (s.session (.new b))))
  | .take l => (s.allocs l).map fun a => s.taken l (take w (s.session a))
  | .exit l => some { s with allocs := Function.update s.allocs l none }

/-- The files, of any contents, and the allocators that come to share them. -/
def allocating (w : World) : Transition Shared Event :=
  .ofNext (fun s => (∀ l, s.allocs l = none) ∧ s.issued = []) (Shared.next w)

/-- What is handed out or held is reserved, and is so only once. -/
structure Apart (s : Shared) : Prop where
  issued : ∀ p ∈ s.issued, Covers s.state p
  held : ∀ l a, s.allocs l = some a → ∀ p, a.Owns p → Covers s.state p ∧ p ∉ s.issued
  apart : ∀ l l' a a', l ≠ l' → s.allocs l = some a → s.allocs l' = some a' →
    ∀ p, a.Owns p → ¬a'.Owns p
  nodup : s.issued.Nodup

/-- What is free for an allocator has neither been handed out, nor is it held by another. -/
theorem Apart.free {s : Shared} (h : Apart s) {l : ℕ}
    (ha : ∀ p, a.Owns p → s.allocs l = some a) (hp : Free s.state a p) :
    p ∉ s.issued ∧ ∀ l' a', l' ≠ l → s.allocs l' = some a' → ¬a'.Owns p := by
  rcases hp with hp | hp
  · have hl := ha p hp
    exact ⟨(h.held l a hl p hp).2, fun l' a' hne hl' => h.apart l l' a a' hne.symm hl hl' p hp⟩
  · exact ⟨fun hi => hp (h.issued p hi), fun l' a' _ hl' ho => hp (h.held l' a' hl' p ho).1⟩

/-- An operation on an allocator keeps blocks and identifiers apart, if what it
    leaves to the allocator and what it hands out was free. -/
theorem Apart.after {s : Shared} (h : Apart s) {l : ℕ} (s' : Session)
    (new : Option Allocator) (out : List (ℕ × ℕ))
    (ha : ∀ p, a.Owns p → s.allocs l = some a) (hg : Grown s.state s'.state) (hnew : ∀ a', new = some a' → ∀ p, a'.Owns p →
      Covers s'.state p ∧ Free s.state a p)
    (hout : ∀ p ∈ out, Covers s'.state p ∧ Free s.state a p ∧
      ∀ a', new = some a' → ¬a'.Owns p) (hnodup : out.Nodup) :
    Apart (s.after l s' new out) ∧ Grown s.state (s.after l s' new out).state := by
  refine ⟨?_, hg⟩
  have hfree := fun p => h.free (p := p) ha
  have hold : ∀ l' a', l' ≠ l → s.allocs l' = some a' → ∀ p, a'.Owns p →
      Covers s'.state p ∧ p ∉ out ++ s.issued := by
    intro l' a' hne hl' p hp
    obtain ⟨hc, hi⟩ := h.held l' a' hl' p hp
    refine ⟨hc.grown hg, fun hmem => ?_⟩
    rcases mem_append.1 hmem with hmem | hmem
    · exact (hfree p (hout p hmem).2.1).2 l' a' hne hl' hp
    · exact hi hmem
  refine ⟨fun p hp => ?_, fun l' a' hl' p hp => ?_, fun l₁ l₂ a₁ a₂ hne h₁ h₂ p hp₁ hp₂ => ?_, ?_⟩
  · rcases mem_append.1 hp with hp | hp
    · exact (hout p hp).1
    · exact (h.issued p hp).grown hg
  · change Function.update s.allocs l new l' = some a' at hl'
    rcases eq_or_ne l' l with rfl | hne
    · rw [Function.update_self] at hl'
      obtain ⟨hc, hf⟩ := hnew a' hl' p hp
      refine ⟨hc, fun hmem => ?_⟩
      rcases mem_append.1 hmem with hmem | hmem
      · exact (hout p hmem).2.2 a' hl' hp
      · exact (hfree p hf).1 hmem
    · rw [Function.update_of_ne hne] at hl'
      exact hold l' a' hne hl' p hp
  · change Function.update s.allocs l new l₁ = some a₁ at h₁
    change Function.update s.allocs l new l₂ = some a₂ at h₂
    rcases eq_or_ne l₁ l with rfl | hne₁
    · rw [Function.update_self] at h₁
      rw [Function.update_of_ne hne.symm] at h₂
      exact (hfree p (hnew a₁ h₁ p hp₁).2).2 l₂ a₂ hne.symm h₂ hp₂
    · rw [Function.update_of_ne hne₁] at h₁
      rcases eq_or_ne l₂ l with rfl | hne₂
      · rw [Function.update_self] at h₂
        exact (hfree p (hnew a₂ h₂ p hp₂).2).2 l₁ a₁ hne₁ h₁ hp₁
      · rw [Function.update_of_ne hne₂] at h₂
        exact h.apart l₁ l₂ a₁ a₂ hne h₁ h₂ p hp₁ hp₂
  · exact nodup_append.2 ⟨hnodup, h.nodup, fun p hp q hq hpq =>
      (hfree p (hout p hp).2.1).1 (hpq ▸ hq)⟩

theorem not_owns_new {b : BlockSize} : ¬(Allocator.new b).Owns p := fun h =>
  absurd h.2.2 (not_lt.2 h.2.1)

theorem apart_step {s s' : Shared} {e : Event} (h : Apart s)
    (hstep : (allocating w).step s e s') : Apart s' ∧ Grown s.state s'.state := by
  cases e with
  | construct l b =>
    cases hstep
    have ha : ∀ p, (Allocator.new b).Owns p → s.allocs l = some (.new b) := fun p hp =>
      absurd hp not_owns_new
    have hwp := wp_construct (w := w) (s := s.session (.new b))
    generalize hout : construct w (s.session (.new b)) = out
    obtain ⟨r, s₁⟩ := out
    cases r with
    | ok u =>
      obtain ⟨st, hst⟩ := wp_ok hwp hout
      refine h.after s₁ (some s₁.alloc) [] ha hst.grown (fun a' ha' p hp => ?_) nofun nodup_nil
      cases ha'
      exact ⟨(hst.covers hp).1, .inr (hst.covers hp).2⟩
    | raised e =>
      have hg := wp_raised hwp hout
      exact h.after s₁ none [] ha hg nofun nofun nodup_nil
    | halted =>
      have hg := wp_halted hwp hout
      exact h.after s₁ none [] ha hg nofun nofun nodup_nil
  | take l =>
    obtain ⟨a, hl, rfl⟩ := Option.map_eq_some_iff.1 hstep
    have ha : ∀ p, a.Owns p → s.allocs l = some a := fun _ _ => hl
    have hwp := wp_take (w := w) (s := s.session a) fun p hp => (h.held l a hl p hp).1
    generalize hout : take w (s.session a) = out
    obtain ⟨r, s₁⟩ := out
    cases r with
    | ok id =>
      have ht := wp_ok hwp hout
      refine h.after s₁ (some s₁.alloc) [(s₁.alloc.nodeNum, id)] ha ht.grown
        (fun a' ha' p hp => ?_) (fun p hp => ?_) (nodup_singleton _)
      · cases ha'
        exact ⟨ht.covers p hp, ht.free p hp⟩
      · rw [mem_singleton.1 hp]
        refine ⟨ht.taken, ht.takenFree, fun a' ha' => ?_⟩
        cases ha'
        exact ht.gone
    | raised e =>
      have ht := wp_raised hwp hout
      refine h.after s₁ (some s₁.alloc) [] ha ht.grown (fun a' ha' p hp => ?_) nofun nodup_nil
      cases ha'
      exact ⟨ht.covers p hp, ht.free p hp⟩
    | halted =>
      have hg := wp_halted hwp hout
      exact h.after s₁ none [] ha hg nofun nofun nodup_nil
  | exit l =>
    cases hstep
    exact h.after (a := .new ⟨1, by decide⟩) (s.session (.new ⟨1, by decide⟩)) none []
      (fun p hp => absurd hp not_owns_new) (.refl _) nofun nofun nodup_nil

theorem apart_reachable {s : Shared} (h : (allocating w).Reachable s) : Apart s := by
  refine Transition.Reach.induction (fun s hs => ?_) (fun _ _ _ hs _ hstep => (apart_step hs hstep).1) h
  obtain ⟨hnone, hissued⟩ := hs
  refine ⟨fun p hp => ?_, fun l a hl => ?_, fun l l' a a' _ hl => ?_, ?_⟩
  · rw [hissued] at hp
    exact absurd hp not_mem_nil
  · rw [hnone l] at hl
    cases hl
  · rw [hnone l] at hl
    cases hl
  · rw [hissued]
    exact nodup_nil

/-! ## When nothing goes wrong -/

/-- A world in which no step fails. -/
structure World.Calm (w : World) : Prop where
  lock : ∀ n, w.lockFault n = .none
  unlock : ∀ n, w.unlockFault n = .none
  read : ∀ n, w.readFault n = .none
  write : ∀ n, w.writeFault n = .none

theorem wp_step_calm (hf : ∀ n, fault n = .none) {effect : Session → Session}
    (hQ : Q () (effect { s with tick := s.tick + 1 })) : wp (step fault effect) Q E H s := by
  rw [step, wp_bind]
  change wp (Prog.perform (fault s.tick) .osError effect) Q E H { s with tick := s.tick + 1 }
  rw [hf]
  exact hQ

theorem wp_underFileLock_calm (hw : w.Calm) {x : AProg α} {Q : α → Session → Prop}
    (hx : ∀ s', Same s s' → wp x (fun a s' => ∀ n, Q a { s' with tick := n })
      (fun e s' => ∀ n, E e { s' with tick := n }) H s') : wp (underFileLock w x) Q E H s := by
  rw [underFileLock, wp_bind]
  refine wp_step_calm hw.lock ?_
  rw [wp_tryFinally]
  exact wp_mono (hx _ ⟨rfl, rfl, rfl⟩) (fun _ _ h => wp_step_calm hw.unlock (h _))
    (fun _ _ h => wp_step_calm hw.unlock (h _)) (fun _ h => h)

theorem wp_loadStateLocked_calm (hw : w.Calm) (hst : loadState s.state = .ok st)
    {Q : State → Session → Prop}
    (hQ : Q st { s with tick := s.tick + 1 }) : wp (loadStateLocked w) Q E H s := by
  rw [loadStateLocked, wp_bind, wp_tryCatch]
  refine wp_step_calm hw.read ?_
  rw [wp_bind, wp_get]
  change wp (raiseFor (loadState s.state)) _ _ _ _
  rw [hst]
  exact hQ

theorem wp_loadNodeNumLocked_calm (hw : w.Calm) {n : ℕ} (hn : nodeNumOf s.node = some n)
    {Q : Option ℕ → Session → Prop}
    (hQ : Q (some n) { s with tick := s.tick + 1 }) : wp (loadNodeNumLocked w true) Q E H s := by
  cases hfile : s.node with
  | text text =>
    rw [hfile, nodeNumOf] at hn
    cases hp : parseNodeNum text with
    | error message =>
      rw [hp] at hn
      cases hn
    | ok m =>
      rw [hp] at hn
      cases hn
      have habs : s.node ≠ .absent := fun h => by cases hfile.symm.trans h
      rw [loadNodeNumLocked, wp_bind, wp_get, if_neg habs, wp_bind, hfile, readNodeNum,
        wp_tryCatch, wp_bind]
      refine wp_step_calm hw.read ?_
      rw [hp]
      exact hQ
  | _ =>
    rw [hfile] at hn
    cases hn

theorem wp_reserveAfterLocked_calm (hw : w.Calm) (hroom : st.highWatermark < maxPacketId) :
    wp (reserveAfterLocked w st) (fun _ _ => True) (fun _ _ => False) (fun _ => False) s := by
  rw [reserveAfterLocked, if_neg (not_le.2 hroom), wp_bind]
  change wp (do
    writeStateLocked w _
    modifyAlloc _) _ _ _ s
  rw [wp_bind]
  exact wp_step_calm hw.write trivial

/-- A pending enrolment is completed, if there is an identifier left to reserve. -/
theorem construct_pending (hw : w.Calm) (hst : loadState s.state = .ok st)
    (hp : st.enrollment = .pending) (hroom : st.highWatermark < maxPacketId) :
    wp (construct w) (fun _ _ => True) (fun _ _ => False) (fun _ => False) s := by
  refine wp_underFileLock_calm hw fun s₁ hs₁ => ?_
  rw [← hs₁.1] at hst
  have habs : s₁.state ≠ .absent := fun ha => by
    rw [ha] at hst
    cases hst
  rw [initializeLocked, wp_bind, wp_get, if_neg habs, wp_bind]
  refine wp_loadStateLocked_calm hw hst ?_
  simp only [takeUp, hp]
  rw [wp_bind]
  refine wp_step_calm hw.write ?_
  rw [wp_bind]
  refine wp_step_calm hw.write ?_
  rw [openBlock, wp_bind, wp_modifyAlloc]
  exact wp_mono (wp_reserveAfterLocked_calm hw hroom) (fun _ _ h _ => h) (fun _ _ h _ => h)
    (fun _ h => h)

/-- Where all identifiers are reserved and the files agree, `take` says so. -/
theorem take_exhausted (hw : w.Calm) (hz : s.alloc.remaining = 0)
    (hst : loadState s.state = .ok st) (hc : st.enrollment = .complete)
    (hn : st.nodeNum = s.alloc.nodeNum) (hnode : nodeNumOf s.node = some st.nodeNum)
    (hmax : maxPacketId ≤ st.highWatermark) :
    wp (take w) (fun _ _ => False) (fun e _ => ∃ message, e = .exhausted message)
      (fun _ => False) s := by
  rw [take, wp_bind, reserveIfEmpty, wp_bind]
  change wp (if s.alloc.remaining = 0 then _ else _) _ _ _ _
  rw [if_pos hz]
  refine wp_underFileLock_calm hw fun s₁ hs₁ => ?_
  obtain ⟨hstate, hfile, halloc⟩ := hs₁
  rw [← hstate] at hst
  rw [← hfile] at hnode
  rw [← halloc] at hn
  rw [reserveLocked, wp_bind]
  refine wp_loadStateLocked_calm hw hst ?_
  rw [wp_bind]
  change wp (if st.enrollment ≠ .complete then _ else if st.nodeNum ≠ s₁.alloc.nodeNum then _
    else _) _ _ _ _
  rw [if_neg (not_not.2 hc), if_neg (not_not.2 hn), wp_bind]
  refine wp_loadNodeNumLocked_calm (s := { s₁ with tick := s₁.tick + 1 }) hw hnode ?_
  change wp (if some st.nodeNum ≠ some s₁.alloc.nodeNum then _ else _) _ _ _ _
  rw [if_neg (not_not.2 (congrArg some hn)), reserveAfterLocked, if_pos hmax]
  exact fun _ => ⟨_, rfl⟩

/-! ## The claims about all runs -/

/-- What is known of the state a constructor leaves when it has found `st` pending. -/
def Completed (st : State) (s' : Session) : Prop :=
  ∃ st', loadState s'.state = .ok st' ∧ st'.enrollment = .complete ∧ st'.nodeNum = st.nodeNum ∧
    nodeNumOf s'.node = some st.nodeNum ∧ s'.alloc.nodeNum = st.nodeNum

theorem Opened.completed {st' : State} {s : Session} (h : Opened f st' s)
    (hst : loadState f = .ok st) : Completed st s := by
  have hn := (h.above st hst).1
  exact ⟨st', h.state, h.complete, hn, hn ▸ h.node, hn ▸ h.own⟩

/-- However constructors and calls of `take` are interleaved, fail and are
    killed: no pair of node number and identifier is handed out twice; all
    identifiers are nonzero and fit in 32 bits; once all of them are reserved,
    an allocator that has none left raises; and a pending enrolment stays one of
    the same node, which each constructor that returns has completed, as one
    does when nothing fails. -/
theorem packet_ids_unique (w : World) {s : Shared} (h : (allocating w).Reachable s) :
    s.issued.Nodup ∧
    (∀ p ∈ s.issued, 1 ≤ p.2 ∧ p.2 ≤ 0xFFFFFFFF) ∧
    (∀ l a st, s.allocs l = some a → a.remaining = 0 → loadState s.state = .ok st →
      maxPacketId ≤ st.highWatermark →
        (∀ id, (take w (s.session a)).1 ≠ .ok id) ∧
        (w.Calm → st.enrollment = .complete → st.nodeNum = a.nodeNum →
          nodeNumOf s.node = some st.nodeNum →
            ∃ message, (take w (s.session a)).1 = .raised (.exhausted message))) ∧
    (∀ st, loadState s.state = .ok st → st.enrollment = .pending →
      (∀ s', (allocating w).Leads (fun _ _ => True) s s' →
        ∃ st', loadState s'.state = .ok st' ∧ st'.nodeNum = st.nodeNum) ∧
      ∀ b, ((construct w (s.session (.new b))).1 = .ok () →
          Completed st (construct w (s.session (.new b))).2) ∧
        (w.Calm → st.highWatermark < maxPacketId →
          (construct w (s.session (.new b))).1 = .ok ())) := by
  have hinv := apart_reachable h
  refine ⟨hinv.nodup, fun p hp => ?_, fun l a st _ hz hst hmax => ⟨fun id hid => ?_,
    fun hw hc hn hnode => ?_⟩, fun st hst hp => ⟨fun s' hs' => ?_, fun b => ⟨fun hok => ?_,
    fun hw hroom => ?_⟩⟩⟩
  · obtain ⟨st, hst, -, h1, hle⟩ := hinv.issued p hp
    exact ⟨h1, hle.trans (loadState_ok hst).watermark.2⟩
  · exact wp_ok (wp_take_exhausted (w := w) (s := s.session a) hz hst hmax)
      (Prod.ext hid rfl)
  · obtain ⟨e, s', hr, message, rfl⟩ :=
      wp_raises (take_exhausted (s := s.session a) hw hz hst hc hn hnode hmax)
    exact ⟨message, congrArg Prod.fst hr⟩
  · have hgrown : Grown s.state s'.state := Transition.Leads.induction
      (R := fun s s' : Shared => Grown s.state s'.state) (fun s => .refl _)
      (fun _ _ _ => Grown.trans)
      (fun _ _ _ hr _ hstep => (apart_step (apart_reachable hr) hstep).2) h hs'
    obtain ⟨st', hst', hn, -⟩ := hgrown st hst
    exact ⟨st', hst', hn⟩
  · obtain ⟨st', h'⟩ := wp_ok (wp_construct (w := w) (s := s.session (.new b)))
      (Prod.ext hok rfl)
    exact h'.completed hst
  · obtain ⟨u, s', hr, -⟩ :=
      wp_returns (construct_pending (s := s.session (.new b)) hw hst hp hroom)
    exact congrArg Prod.fst hr

/-- What the allocators hold in reserve: no two of them an identifier of the same
    node, none that was handed out, and none that the state file does not reserve. -/
theorem reserves_apart (w : World) {s : Shared} (h : (allocating w).Reachable s)
    {l : ℕ} {a : Allocator} (hl : s.allocs l = some a) {p : ℕ × ℕ} (hp : a.Owns p) :
    Covers s.state p ∧ p ∉ s.issued ∧ ∀ l' a', l ≠ l' → s.allocs l' = some a' → ¬a'.Owns p :=
  let hinv := apart_reachable h
  ⟨(hinv.held l a hl p hp).1, (hinv.held l a hl p hp).2,
    fun l' a' hne hl' => hinv.apart l l' a a' hne hl hl' p hp⟩

/-- A world in which the node's own file is not written the first time: the
    process is killed before. -/
def killedWorld : World where
  randbelow n := n % 2
  lockFault _ := .none
  unlockFault _ := .none
  readFault _ := .none
  writeFault n := if n = 3 then .haltsBefore else .none
  randbelow_lt n := by omega
  redraws n previous := if some (minNodeNum + n % 2) = previous then 1 else 0
  redraws_ne n previous := by
    split_ifs with h
    · intro h'
      have heq := Option.some.inj (h.trans h'.symm)
      omega
    · exact h
  redraws_first n previous k hk := by
    split_ifs at hk with h
    · rwa [Nat.lt_one_iff.1 hk]
    · exact absurd hk (Nat.not_lt_zero k)

/-- The enrolment of a node is killed half-way and completed by the next
    process, which hands out three identifiers, of two blocks. -/
def killedRun : List Event :=
  [.construct 0 ⟨2, by decide⟩, .construct 1 ⟨2, by decide⟩, .take 1, .take 1, .take 1]

theorem packet_ids_unique_across_kill : ∃ s, (allocating killedWorld).Reachable s ∧
    s.issued.map Prod.snd = [5, 4, 3] ∧ s.issued.Nodup := by
  have hrun : (killedRun.foldlM (Shared.next killedWorld)
      ⟨.absent, .absent, 0, fun _ => none, []⟩).map (fun s => s.issued.map Prod.snd) =
        some [5, 4, 3] := by decide +kernel
  obtain ⟨s, hs, hissued⟩ := Option.map_eq_some_iff.1 hrun
  have hreach : (allocating killedWorld).Reachable s :=
    Transition.Reachable.foldlM (Transition.Reach.init ⟨fun _ => rfl, rfl⟩) hs
  exact ⟨s, hreach, hissued, (packet_ids_unique killedWorld hreach).1⟩

theorem reserves_apart_killed : ∃ s a, (allocating killedWorld).Reachable s ∧
    s.allocs 1 = some a ∧ (a.nodeNum, a.nextId) ∉ s.issued := by
  obtain ⟨s, hs, a, ha, hpos⟩ : ∃ s ∈ killedRun.foldlM (Shared.next killedWorld)
      ⟨.absent, .absent, 0, fun _ => none, []⟩, ∃ a ∈ s.allocs 1, 0 < a.remaining := by
    decide
  have hreach : (allocating killedWorld).Reachable s := .foldlM (.init ⟨fun _ => rfl, rfl⟩) hs
  have hown : a.Owns (a.nodeNum, a.nextId) := ⟨rfl, le_rfl, Nat.lt_add_of_pos_right hpos⟩
  exact ⟨s, a, hreach, ha, (reserves_apart killedWorld hreach ha hown).2.1⟩

end ReticulumPi.Meshtastic
