import ReticulumPi.Rtlsdr.Claims

/-!
# Exclusive claims

The two tables of the claims are inverse to each other and no two claims are
of one device. While a call replaces claims this only holds but for those it
has still to take out (`ConsistentBut`): a new claim is entered beside them,
and each one taken out restores a little more of it. Claims never change and
their numbers are not reused (`Ages`), so that a lease always says what the
claim of its number says, if there still is one.
-/

namespace ReticulumPi.Rtlsdr

open List

namespace Claims

variable {t t' : Claims}

/-! ## What the tables keep -/

/-- The tables agree, but for the claims `out`, which are to be taken out. -/
structure ConsistentBut (out : List ℕ) (t : Claims) : Prop where
  claim_id : ∀ i r, t.claimed.get? i = some r → r.claimId = i
  claim_pos : ∀ i r, t.claimed.get? i = some r → 0 < i
  claim_le : ∀ i r, t.claimed.get? i = some r → i ≤ t.nextClaimId
  sound : ∀ σ i, t.claimSelections.get? σ = some i →
    ∃ r, t.claimed.get? i = some r ∧ r.selection = σ
  complete : ∀ i r, t.claimed.get? i = some r → i ∉ out →
    t.claimSelections.get? r.selection = some i
  apart : ∀ i j r q, t.claimed.get? i = some r → t.claimed.get? j = some q → i ∉ out → j ∉ out →
    i ≠ j → r.canonicalId ≠ q.canonicalId ∧ r.index ≠ q.index

theorem consistentBut_empty : ConsistentBut [] .empty where
  claim_id _ _ h := by simp [empty] at h
  claim_pos _ _ h := by simp [empty] at h
  claim_le _ _ h := by simp [empty] at h
  sound _ _ h := by simp [empty] at h
  complete _ _ h := by simp [empty] at h
  apart _ _ _ _ h := by simp [empty] at h

variable {out : List ℕ}

theorem ConsistentBut.mono {out' : List ℕ} (h : t.ConsistentBut out) (hsub : out ⊆ out') :
    t.ConsistentBut out' where
  claim_id := h.claim_id
  claim_pos := h.claim_pos
  claim_le := h.claim_le
  sound := h.sound
  complete i r hi hout := h.complete i r hi fun hmem => hout (hsub hmem)
  apart i j r q hi hj hi' hj' :=
    h.apart i j r q hi hj (fun hmem => hi' (hsub hmem)) fun hmem => hj' (hsub hmem)

/-- Claims never change, and numbers are not reused: a later claim of a known
    number is the one it was. -/
structure Ages (t t' : Claims) : Prop where
  next_le : t.nextClaimId ≤ t'.nextClaimId
  claim : ∀ i r, i ≤ t.nextClaimId → t'.claimed.get? i = some r → t.claimed.get? i = some r

theorem Ages.refl (t : Claims) : t.Ages t := ⟨le_rfl, fun _ _ _ h => h⟩

theorem Ages.trans {t₁ t₂ t₃ : Claims} (h : t₁.Ages t₂) (h' : t₂.Ages t₃) : t₁.Ages t₃ :=
  ⟨h.next_le.trans h'.next_le,
    fun i r hi hr => h.claim i r hi (h'.claim i r (hi.trans h.next_le) hr)⟩

/-! ## Taking claims out -/

@[simp] theorem nextClaimId_popClaimLocked (i : ℕ) :
    (t.popClaimLocked i).nextClaimId = t.nextClaimId := by
  unfold popClaimLocked
  split
  · rfl
  · rfl

theorem get?_popClaimLocked (i j : ℕ) :
    (t.popClaimLocked i).claimed.get? j = if j = i then none else t.claimed.get? j := by
  unfold popClaimLocked
  split
  · next h =>
    split_ifs with hj
    · rw [hj, h]
    · rfl
  · exact Dict.get?_erase

/-- Taking a claim out takes its selection with it, and no other. -/
theorem selections_popClaimLocked (h : t.ConsistentBut out) (i : ℕ)
    (σ : Selection) : (t.popClaimLocked i).claimSelections.get? σ =
      if t.claimSelections.get? σ = some i then none else t.claimSelections.get? σ := by
  unfold popClaimLocked
  split
  · next hi =>
    rw [if_neg fun hσ => ?_]
    obtain ⟨r, hr, _⟩ := h.sound σ i hσ
    rw [hi] at hr
    cases hr
  · next record hi =>
    dsimp only
    by_cases hsel : t.claimSelections.get? record.selection = some i
    · rw [if_pos hsel, Dict.get?_erase]
      by_cases hσ : σ = record.selection
      · rw [if_pos hσ, if_pos (hσ ▸ hsel)]
      · rw [if_neg hσ, if_neg fun hσi => hσ ?_]
        obtain ⟨r, hr, hrσ⟩ := h.sound σ i hσi
        rw [hi] at hr
        cases hr
        exact hrσ.symm
    · rw [if_neg hsel, if_neg fun hσi => hsel ?_]
      obtain ⟨r, hr, hrσ⟩ := h.sound σ i hσi
      rw [hi] at hr
      cases hr
      exact hrσ ▸ hσi

theorem ConsistentBut.popClaimLocked {i : ℕ} (h : t.ConsistentBut (i :: out)) :
    (t.popClaimLocked i).ConsistentBut out := by
  have hlive : ∀ j r, (t.popClaimLocked i).claimed.get? j = some r →
      j ≠ i ∧ t.claimed.get? j = some r := fun j r hj => by
    rw [get?_popClaimLocked] at hj
    split_ifs at hj with hji
    exact ⟨hji, hj⟩
  refine ⟨fun j r hj => h.claim_id j r (hlive j r hj).2,
    fun j r hj => h.claim_pos j r (hlive j r hj).2, fun j r hj => ?_, fun σ j hσ => ?_, fun j r hj hout => ?_, fun j k r q hj hk hj' hk' => ?_⟩
  · rw [nextClaimId_popClaimLocked]
    exact h.claim_le j r (hlive j r hj).2
  · rw [selections_popClaimLocked h] at hσ
    split_ifs at hσ with hi
    obtain ⟨r, hr, hrσ⟩ := h.sound σ j hσ
    have hji : j ≠ i := fun hji => hi (by rw [hσ, hji])
    exact ⟨r, by rw [get?_popClaimLocked, if_neg hji, hr], hrσ⟩
  · obtain ⟨hji, hr⟩ := hlive j r hj
    have hsel := h.complete j r hr (by simpa [hji] using hout)
    rw [selections_popClaimLocked h, if_neg fun hi => hji ?_, hsel]
    exact Option.some.inj (hsel.symm.trans hi)
  · obtain ⟨hji, hr⟩ := hlive j r hj
    obtain ⟨hki, hq⟩ := hlive k q hk
    exact h.apart j k r q hr hq (by simpa [hji] using hj') (by simpa [hki] using hk')

theorem ages_popClaimLocked (i : ℕ) (t : Claims) : t.Ages (t.popClaimLocked i) := by
  refine ⟨(nextClaimId_popClaimLocked i).ge, fun j r _ hj => ?_⟩
  rw [get?_popClaimLocked] at hj
  split_ifs at hj
  exact hj

/-- Once all the claims `out` are out, the tables agree. -/
theorem ConsistentBut.foldl_popClaimLocked (h : t.ConsistentBut out) :
    (out.foldl (fun t i => Claims.popClaimLocked i t) t).ConsistentBut [] := by
  induction out generalizing t with
  | nil => exact h
  | cons i out ih => exact ih h.popClaimLocked

theorem ages_foldl_popClaimLocked (out : List ℕ) (t : Claims) :
    t.Ages (out.foldl (fun t i => popClaimLocked i t) t) := by
  induction out generalizing t with
  | nil => exact .refl t
  | cons i out ih => exact (ages_popClaimLocked i t).trans (ih _)

/-! ## Claiming -/

/-- A claim of a device that no claim but those of `out` is of may be entered,
    if its selection is not that of another claim. -/
theorem ConsistentBut.addClaim (h : t.ConsistentBut []) {resolved : ResolvedDevice}
    {configured caller : String} {selector : DeviceSelector}
    (hfree : ∀ i r, t.claimed.get? i = some r → i ∉ out → ¬Collides r resolved)
    (hown : ∀ i, t.claimSelections.get? (caller, selector, configured) = some i → i ∈ out) :
    (t.addClaim resolved configured caller selector).ConsistentBut out := by
  set record : ClaimRecord := ⟨t.nextClaimId + 1, caller, selector, configured,
    resolved.canonicalId, resolved.index⟩ with hrecord
  have hget : ∀ j, (t.addClaim resolved configured caller selector).claimed.get? j =
      if j = t.nextClaimId + 1 then some record else t.claimed.get? j := fun j => Dict.get?_set
  have hsel : ∀ σ, (t.addClaim resolved configured caller selector).claimSelections.get? σ =
      if σ = (caller, selector, configured) then some (t.nextClaimId + 1)
      else t.claimSelections.get? σ := fun σ => Dict.get?_set
  have hold : ∀ j r, t.claimed.get? j = some r → j ≠ t.nextClaimId + 1 := fun j r hj => by
    have := h.claim_le j r hj
    omega
  refine ⟨fun j r hj => ?_, fun j r hj => ?_, fun j r hj => ?_, fun σ j hσ => ?_,
    fun j r hj hout => ?_, fun j k r q hj hk hj' hk' hjk => ?_⟩
  · rw [hget] at hj
    split_ifs at hj with hnew
    · cases hj
      exact hnew.symm
    · exact h.claim_id j r hj
  · rw [hget] at hj
    split_ifs at hj with hnew
    · omega
    · exact h.claim_pos j r hj
  · rw [hget] at hj
    split_ifs at hj with hnew
    · exact hnew.le
    · exact (h.claim_le j r hj).trans (Nat.le_succ _)
  · rw [hsel] at hσ
    split_ifs at hσ with hnew
    · cases hσ
      exact ⟨record, by rw [hget, if_pos rfl], hnew.symm⟩
    · obtain ⟨r, hr, hrσ⟩ := h.sound σ j hσ
      exact ⟨r, by rw [hget, if_neg (hold j r hr), hr], hrσ⟩
  · rw [hget] at hj
    split_ifs at hj with hnew
    · cases hj
      exact (hsel _).trans ((if_pos rfl).trans (congrArg some hnew.symm))
    · have hj' := h.complete j r hj not_mem_nil
      have hne : r.selection ≠ (caller, selector, configured) := fun hσ =>
        hout (hown j (hσ ▸ hj'))
      rw [hsel, if_neg hne, hj']
  · rw [hget] at hj hk
    split_ifs at hj with hjn <;> split_ifs at hk with hkn
    · exact absurd (hjn.trans hkn.symm) hjk
    · cases hj
      have := not_or.1 (hfree k q hk hk')
      exact ⟨fun he => this.1 he.symm, fun he => this.2 he.symm⟩
    · cases hk
      exact not_or.1 (hfree j r hj hj')
    · exact h.apart j k r q hj hk not_mem_nil not_mem_nil hjk

theorem ages_addClaim (t : Claims) (resolved : ResolvedDevice) (configured caller : String)
    (selector : DeviceSelector) :
    t.Ages (t.addClaim resolved configured caller selector) := by
  refine ⟨Nat.le_succ _, fun j r hj hr => ?_⟩
  rwa [Claims.addClaim, Dict.get?_set_of_ne (by omega)] at hr

/-- A selection is never left without its claim. -/
theorem ownClaim_eq (h : t.ConsistentBut out) (σ : Selection) :
    t.ownClaim σ = (t.claimSelections.get? σ, t) := by
  unfold ownClaim
  split
  · next hσ => rw [hσ]
  · next own hσ =>
    obtain ⟨r, hr, _⟩ := h.sound σ own hσ
    rw [if_pos (Dict.mem_keys.2 ⟨r, hr⟩), hσ]

/-- What a claim does: it raises and leaves the tables alone, or it enters a
    new claim and takes out those it replaces, among them the one of the same
    selection. -/
theorem claimLocked_cases (h : t.ConsistentBut []) (resolved : ResolvedDevice)
    (configured caller : String) (selector : DeviceSelector) (replace : Option ℕ) :
    (∃ e, claimLocked resolved configured caller selector replace t = (.error e, t)) ∨
    ∃ replaced : List ℕ, claimLocked resolved configured caller selector replace t =
        (.ok (t.nextClaimId + 1), replaced.foldl (fun t i => popClaimLocked i t)
          (t.addClaim resolved configured caller selector)) ∧
      (∀ i r, t.claimed.get? i = some r → i ∉ replaced → ¬Collides r resolved) ∧
      (∀ i, t.claimSelections.get? (caller, selector, configured) = some i → i ∈ replaced) := by
  unfold claimLocked
  rw [ownClaim_eq h]
  dsimp only
  split
  · next e _ => exact .inl ⟨e, rfl⟩
  · split
    · next record _ => exact .inl ⟨_, rfl⟩
    · next hblocking =>
      refine .inr ⟨_, rfl, fun i r hi hout hcollides => ?_, fun i hi => ?_⟩
      · have := find?_eq_none.1 hblocking (i, r) (Dict.get?_eq_some_iff.1 hi)
        exact this (decide_eq_true ⟨hout, hcollides⟩)
      · rw [mem_dedup, hi]
        exact mem_append_left _ (mem_singleton_self i)

/-- The lease of a claim. -/
def lease (r : ClaimRecord) : DeviceLease :=
  ⟨r.configured, r.canonicalId, r.index, r.caller, r.selector, r.claimId⟩

/-- What the tables keep, and how they age. -/
def Keeps (t t' : Claims) : Prop := t.ConsistentBut [] → t'.ConsistentBut [] ∧ t.Ages t'

theorem Keeps.refl (t : Claims) : t.Keeps t := fun h => ⟨h, .refl t⟩

theorem Keeps.trans {t₁ t₂ t₃ : Claims} (h : t₁.Keeps t₂) (h' : t₂.Keeps t₃) : t₁.Keeps t₃ :=
  fun ht => ⟨(h' (h ht).1).1, (h ht).2.trans (h' (h ht).1).2⟩

/-- What `_claim_device` does: it raises and leaves the tables alone, or the claim
    of the number it gives, if there is one, is the one made. -/
theorem claim_cases (h : t.ConsistentBut []) (resolved : ResolvedDevice)
    (configured caller : String) (selector : DeviceSelector) (replace : Option ℕ) :
    (∃ e, claim resolved configured caller selector replace t = (.error e, t)) ∨
    ∃ claimId t', claim resolved configured caller selector replace t = (.ok claimId, t') ∧
      t.Keeps t' ∧ claimId.getD 0 ≤ t'.nextClaimId ∧
        ∀ r, t'.claimed.get? (claimId.getD 0) = some r → r = ⟨claimId.getD 0, caller, selector,
          configured, resolved.canonicalId, resolved.index⟩ := by
  unfold claim
  by_cases hcaller : caller = ""
  · -- Number 0 is no claim's.
    rw [if_pos hcaller]
    refine .inr ⟨none, t, rfl, .refl t, Nat.zero_le _, fun r hr => ?_⟩
    exact absurd (h.claim_pos _ r hr) (lt_irrefl 0)
  · rw [if_neg hcaller]
    rcases claimLocked_cases h resolved configured caller selector replace with
      ⟨e, he⟩ | ⟨replaced, hclaim, hfree, hown⟩
    · rw [he]
      exact .inl ⟨e, rfl⟩
    · rw [hclaim]
      set t₁ := t.addClaim resolved configured caller selector with ht₁
      have hadd := h.addClaim hfree hown
      have hages := ages_foldl_popClaimLocked replaced t₁
      refine .inr ⟨some (t.nextClaimId + 1), _, rfl, fun _ => ⟨hadd.foldl_popClaimLocked,
        (ages_addClaim t resolved configured caller selector).trans hages⟩, hages.next_le,
        fun r hr => ?_⟩
      have hnew := hages.claim _ r le_rfl hr
      rw [ht₁, Claims.addClaim, Dict.get?_set_self] at hnew
      exact (Option.some.inj hnew).symm

variable (int : String → Option ℤ)

/-- What resolving and claiming does: it raises and leaves the tables alone, or
    it gives a lease that the claim of its number agrees with, if there is one. -/
theorem resolveAndClaim_cases (devices : Devices)
    (configured caller : String) (selector : DeviceSelector) (replace : Option ℕ)
    (h : t.ConsistentBut []) :
    (∃ e, resolveAndClaim int devices configured caller selector replace t = (.error e, t)) ∨
    ∃ l t', resolveAndClaim int devices configured caller selector replace t = (.ok l, t') ∧
      t.Keeps t' ∧ l.claimId ≤ t'.nextClaimId ∧
        ∀ r, t'.claimed.get? l.claimId = some r → l = lease r := by
  unfold resolveAndClaim
  split
  · next e _ => exact .inl ⟨e, rfl⟩
  · next resolved _ =>
    rcases claim_cases h resolved configured caller selector replace with
      ⟨e, he⟩ | ⟨claimId, t', hclaim, hkeeps, hle, hrecord⟩
    · rw [he]
      exact .inl ⟨e, rfl⟩
    · rw [hclaim]
      refine .inr ⟨_, t', rfl, hkeeps, hle, fun r hr => ?_⟩
      rw [hrecord r hr]
      rfl

theorem resolveDevice_cases (devices : Devices)
    (configured caller : String) (selector : DeviceSelector) (h : t.ConsistentBut []) :
    (∃ e, resolveDevice int devices configured caller selector t = (.error e, t)) ∨
    ∃ index t', resolveDevice int devices configured caller selector t = (.ok index, t') ∧
      t.Keeps t' := by
  unfold resolveDevice
  split
  · next e _ => exact .inl ⟨e, rfl⟩
  · next resolved _ =>
    rcases claim_cases h resolved configured caller selector none with
      ⟨e, he⟩ | ⟨claimId, t', hclaim, hkeeps, _⟩
    · rw [he]
      exact .inl ⟨e, rfl⟩
    · rw [hclaim]
      exact .inr ⟨resolved.index, t', rfl, hkeeps⟩

/-! ## Releasing -/

theorem keeps_popClaimLocked (i : ℕ) (t : Claims) : t.Keeps (t.popClaimLocked i) := fun h =>
  ⟨(h.mono (nil_subset [i])).popClaimLocked, ages_popClaimLocked i t⟩

theorem keeps_foldl {f : Claims → ℕ → Claims} (hf : ∀ (t : Claims) i, t.Keeps (f t i)) (l : List ℕ)
    (t : Claims) : t.Keeps (l.foldl f t) := by
  induction l generalizing t with
  | nil => exact .refl t
  | cons i l ih => exact (hf t i).trans (ih _)

theorem keeps_releaseClaimId (i : ℕ) (caller : String) (t : Claims) :
    t.Keeps (t.releaseClaimId i caller) := by
  unfold releaseClaimId
  split
  · exact .refl t
  · split
    · exact keeps_popClaimLocked i t
    · exact .refl t

theorem keeps_releaseLease (l : DeviceLease) (t : Claims) : t.Keeps (t.releaseLease l) := by
  unfold releaseLease
  split
  · exact keeps_releaseClaimId l.claimId l.caller t
  · unfold releaseLegacyLease
    split
    · exact .refl t
    · split
      · exact .refl t
      · split
        · exact keeps_popClaimLocked _ t
        · exact .refl t

/-- What `release_device` does: it raises, for a selector that is none, and leaves
    the tables alone, or it takes claims out. -/
theorem releaseDevice_cases (devices : Devices)
    (configured caller : String) (selector : DeviceSelector) (t : Claims) :
    (∃ e, releaseDevice int devices configured caller selector t = (.error e, t)) ∨
    ∃ t', releaseDevice int devices configured caller selector t = (.ok (), t') ∧ t.Keeps t' := by
  have hforce : ∀ resolved, t.Keeps (t.forceReleaseResolved resolved) := fun resolved =>
    keeps_foldl (fun t i => keeps_popClaimLocked i t) _ t
  unfold releaseDevice
  dsimp only
  generalize (if caller ≠ "" then _ else _ : List ℕ) = selected
  split
  · exact .inr ⟨_, rfl, keeps_foldl (fun t i => keeps_releaseClaimId i caller t) selected t⟩
  · split
    · exact .inr ⟨t, rfl, .refl t⟩
    · split
      · next resolved _ => exact .inr ⟨_, rfl, hforce resolved⟩
      · next text _ => exact .inl ⟨_, rfl⟩
      · split
        · split
          · exact .inr ⟨t, rfl, .refl t⟩
          · exact .inr ⟨_, rfl, hforce _⟩
        · exact .inr ⟨t, rfl, .refl t⟩

/-! ## Stale leases -/

/-- The lease is the current one for its device: there is a claim of its
    selection, canonical id, and index, with its number if it has one. -/
def Current (t : Claims) (l : DeviceLease) : Prop :=
  ∃ i r, t.claimed.get? i = some r ∧ r.selection = (l.caller, l.selector, l.configured) ∧
    r.canonicalId = l.canonicalId ∧ r.index = l.index ∧ (l.claimId ≠ 0 → l.claimId = i)

/-- Releasing a lease that is not current does nothing, as long as the claim of
    its number, if there is one, is what it says. -/
theorem releaseLease_stale (h : t.ConsistentBut []) {l : DeviceLease}
    (hl : ∀ r, l.claimId ≠ 0 → t.claimed.get? l.claimId = some r → l = lease r)
    (hcurrent : ¬t.Current l) : t.releaseLease l = t := by
  unfold releaseLease
  split
  · next hne =>
    unfold releaseClaimId
    split
    · rfl
    · next r hr =>
      refine absurd ⟨l.claimId, r, hr, ?_⟩ hcurrent
      rw [hl r hne hr]
      exact ⟨rfl, rfl, rfl, fun _ => rfl⟩
  · next hzero =>
    unfold releaseLegacyLease
    split
    · rfl
    · next i hi =>
      split
      · rfl
      · next r hr =>
        split_ifs with hsame
        · obtain ⟨r', hr', hσ⟩ := h.sound _ i hi
          rw [hr] at hr'
          cases hr'
          exact absurd ⟨i, r, hr, hσ, hsame.1, hsame.2, fun hne => absurd hne hzero⟩ hcurrent
        · rfl

end Claims

/-! ## Runs -/

variable {int : String → Option ℤ} {s : System}

/-- The tables agree, and a lease handed out says what the claim of its number does. -/
structure System.Inv (s : System) : Prop where
  tables : s.claims.ConsistentBut []
  issued_le : ∀ l ∈ s.issued, l.claimId ≤ s.claims.nextClaimId
  issued : ∀ l ∈ s.issued, ∀ r, s.claims.claimed.get? l.claimId = some r → l = Claims.lease r

/-- The leases handed out stay true while the tables age. -/
theorem System.Inv.keeps (h : s.Inv) {t : Claims} (hk : s.claims.Keeps t) :
    System.Inv ⟨t, s.issued⟩ := by
  obtain ⟨ht, hages⟩ := hk h.tables
  exact ⟨ht, fun l hl => (h.issued_le l hl).trans hages.next_le,
    fun l hl r hr => h.issued l hl r (hages.claim _ r (h.issued_le l hl) hr)⟩

theorem System.Inv.resolveAndClaim (h : s.Inv) (devices : Devices) (configured caller : String)
    (selector : DeviceSelector) (replace : Option ℕ) :
    (s.handOut (s.claims.resolveAndClaim int devices configured caller selector replace)).Inv := by
  rcases Claims.resolveAndClaim_cases int devices configured caller selector replace h.tables with
    ⟨e, he⟩ | ⟨l, t, hclaim, hkeeps, hle, hrecord⟩
  · rw [he]
    exact h
  · rw [hclaim]
    obtain ⟨ht, hissued_le, hissued⟩ := h.keeps hkeeps
    refine ⟨ht, fun l' hl' => ?_, fun l' hl' r hr => ?_⟩
    · rcases mem_cons.1 hl' with rfl | hl'
      · exact hle
      · exact hissued_le l' hl'
    · rcases mem_cons.1 hl' with rfl | hl'
      · exact hrecord r hr
      · exact hissued l' hl' r hr

theorem System.Inv.next (h : s.Inv) (a : Label) : (s.next int a).Inv := by
  cases a with
  | claimDevice devices configured caller selector =>
    exact h.resolveAndClaim devices configured caller selector none
  | resolveDevice devices configured caller selector =>
    rcases Claims.resolveDevice_cases int devices configured caller selector h.tables with
      ⟨e, he⟩ | ⟨index, t, hresolve, hkeeps⟩
    · rw [System.next, he]
      exact h
    · rw [System.next, hresolve]
      exact h.keeps hkeeps
  | refreshDeviceLease devices lease configured caller selector =>
    exact h.resolveAndClaim devices configured caller selector _
  | releaseDevice devices configured caller selector =>
    rcases Claims.releaseDevice_cases int devices configured caller selector s.claims with
      ⟨e, he⟩ | ⟨t, hrelease, hkeeps⟩
    · rw [System.next, he]
      exact h
    · rw [System.next, hrelease]
      exact h.keeps hkeeps
  | releaseLease lease => exact h.keeps (Claims.keeps_releaseLease lease s.claims)
  | reset =>
    refine ⟨⟨?_, ?_, ?_, ?_, ?_, ?_⟩, h.issued_le, ?_⟩
    all_goals simp [System.next]

theorem reachable_inv (h : (system int).Reachable s) : s.Inv := by
  refine Transition.Reach.induction (I := System.Inv) (fun s hs => ?_) (fun s a s' ih _ hs => ?_) h
  · cases hs
    exact ⟨Claims.consistentBut_empty, by simp, by simp⟩
  · cases hs
    exact ih.next a

/-- A call that raises leaves both tables as they were. -/
theorem raises_next (h : s.Inv) {a : Label} {e : Error} (hraises : s.Raises int e a) :
    s.next int a = s := by
  have hclaim : ∀ {devices configured caller selector replace}, (s.claims.resolveAndClaim int
      devices configured caller selector replace).1 = .error e → s.handOut
        (s.claims.resolveAndClaim int devices configured caller selector replace) = s := by
    intro devices configured caller selector replace he
    rcases Claims.resolveAndClaim_cases int devices configured caller selector replace h.tables
      with ⟨e', he'⟩ | ⟨l, t, hok, _⟩
    · rw [he']
      rfl
    · rw [hok] at he
      cases he
  cases a with
  | claimDevice devices configured caller selector
  | refreshDeviceLease devices lease configured caller selector => exact hclaim hraises
  | resolveDevice devices configured caller selector =>
    change (s.claims.resolveDevice int devices configured caller selector).1 = .error e at hraises
    rcases Claims.resolveDevice_cases int devices configured caller selector h.tables with
      ⟨e', he⟩ | ⟨index, t, hok, _⟩
    · rw [System.next, he]
    · rw [hok] at hraises
      cases hraises
  | releaseDevice devices configured caller selector =>
    change (s.claims.releaseDevice int devices configured caller selector).1 = .error e at hraises
    rcases Claims.releaseDevice_cases int devices configured caller selector s.claims with
      ⟨e', he⟩ | ⟨t, hok, _⟩
    · rw [System.next, he]
    · rw [hok] at hraises
      cases hraises
  | releaseLease lease | reset => exact hraises.elim

/-- RTL-SDR claims, in every reachable state: no two of them are of one canonical
    id or index, the selections are inverse to them, releasing a lease that is
    not current does nothing, and neither does a call that raises. -/
theorem rtlsdr_claims_exclusive (h : (system int).Reachable s) :
    (∀ i j r q, s.claims.claimed.get? i = some r → s.claims.claimed.get? j = some q → i ≠ j →
      r.canonicalId ≠ q.canonicalId ∧ r.index ≠ q.index) ∧
    (∀ σ i, s.claims.claimSelections.get? σ = some i ↔
      ∃ r, s.claims.claimed.get? i = some r ∧ r.selection = σ) ∧
    (∀ l, l ∈ s.issued ∨ l.claimId = 0 → ¬s.claims.Current l →
      s.next int (.releaseLease l) = s) ∧
    ∀ a e, s.Raises int e a → s.next int a = s := by
  have hinv := reachable_inv h
  refine ⟨fun i j r q hi hj => hinv.tables.apart i j r q hi hj not_mem_nil not_mem_nil,
    fun σ i => ⟨hinv.tables.sound σ i, ?_⟩, fun l hl hcurrent => ?_, fun a e => raises_next hinv⟩
  · rintro ⟨r, hr, rfl⟩
    exact hinv.tables.complete i r hr not_mem_nil
  · rw [System.next, Claims.releaseLease_stale hinv.tables (fun r hne hr => ?_) hcurrent]
    rcases hl with hl | hzero
    · exact hinv.issued l hl r hr
    · exact absurd hzero hne

/-- The claim of one of two receivers. -/
def claimFirst : Label :=
  .claimDevice [(0, "00000001"), (1, "00000002")] "00000001" "adsb" .serial

/-- The refresh of its lease, once the receivers have changed their indexes. -/
def refreshMoved : Label :=
  .refreshDeviceLease [(0, "00000002"), (1, "00000001")]
    (some ⟨"00000001", "serial:00000001", 0, "adsb", .serial, 1⟩) "00000001" "adsb" .serial

/-- The receiver is replugged under a live lease, which is refreshed. -/
def replugged : System :=
  ((⟨.empty, []⟩ : System).next (fun _ => none) claimFirst).next (fun _ => none) refreshMoved

theorem rtlsdr_claims_exclusive_replugged :
    replugged.next (fun _ => none)
        (.releaseLease ⟨"00000001", "serial:00000001", 0, "adsb", .serial, 1⟩) = replugged ∧
      replugged.claims.claimed.get? 2 =
        some ⟨2, "adsb", .serial, "00000001", "serial:00000001", 1⟩ := by
  have hnext : ∀ s a, (system fun _ => none).Reachable s →
      (system fun _ => none).Reachable (s.next (fun _ => none) a) := fun s a h => h.step rfl
  have hreach : (system fun _ => none).Reachable replugged :=
    hnext _ refreshMoved (hnext _ claimFirst (Transition.Reach.init rfl))
  obtain ⟨_, _, hstale, _⟩ := rtlsdr_claims_exclusive hreach
  have hlive : replugged.claims.claimed.get? 2 =
      some ⟨2, "adsb", .serial, "00000001", "serial:00000001", 1⟩ := by decide +kernel
  refine ⟨hstale _ (.inl (by decide +kernel)) ?_, hlive⟩
  rintro ⟨i, r, hr, _, _, hindex, hi⟩
  have hone : i = 1 := (hi (by decide)).symm
  have hnone : replugged.claims.claimed.get? 1 = none := by decide +kernel
  rw [hone, hnone] at hr
  cases hr

end ReticulumPi.Rtlsdr
