import ReticulumPi.Serial.Exclusive

/-!
# The tables of a registry are derived, and its calls atomic

In every reachable state the indexes and the share groups are the ones
recomputed from the claims and the intents (`Derived`): the tables agree
(`Tables`), and none of them stores an empty set (`Tidy`). What a call may
leave behind when it raises is what refreshing the live intents does
(`Refreshed`): the claims and the groups stay as they are, and an intent may
take the identity that its path resolves to, whose keys it gains. A claim
identifier or a group number once given up never comes back (`Ages`), so that
a repeated release finds nothing, and the group of a share token is the one it
was issued for.

Not derived from the claims are the nonce of a group, and the spelling of the
path under which its first claim was made.
-/

namespace ReticulumPi.Serial

open List

namespace Registry

variable {r r' : Registry}

/-! ## Derived tables -/

/-- The key index of the claims, the indexes of the intents and the groups are
    the ones recomputed from the records. -/
structure Derived (r : Registry) : Prop where
  claimsByKey : ∀ k, r.claimsByKey.get? k =
    (Index.rebuild r.claims fun c => c.identity.claimKeys).get? k
  intentsByPath : ∀ p, r.intentsByPath.get? p =
    (Index.rebuild r.intents fun t => [t.normalizedPath]).get? p
  intentsByKey : ∀ k, r.intentsByKey.get? k = (Index.rebuild r.intents (·.claimKeys)).get? k
  groups : ∀ γ, (r.groups.get? γ).map (·.claimIds) =
    (Index.rebuild r.claims fun c => [c.groupId]).get? γ
  group_of : ∀ i c g, r.claims.get? i = some c → r.groups.get? c.groupId = some g →
    g.identity.binding = c.identity.binding ∧ g.external = c.external

/-- No table stores an empty set: no key without a record, no group without a claim. -/
structure Tidy (r : Registry) : Prop where
  claimsByKey : r.claimsByKey.Tight
  intentsByPath : r.intentsByPath.Tight
  intentsByKey : r.intentsByKey.Tight
  groups : ∀ γ g, r.groups.get? γ = some g → g.claimIds.Nonempty

theorem tidy_new (nonce : ℕ) : (new nonce).Tidy where
  claimsByKey := Index.tight_empty
  intentsByPath := Index.tight_empty
  intentsByKey := Index.tight_empty
  groups _ _ h := by simp [new] at h

variable {g : ShareGroup} {i : ℕ}

/-- The members of a group are the claims that name it. -/
theorem ClaimTables.mem_claimIds (h : r.ClaimTables) {γ : ℕ} (hg : r.groups.get? γ = some g) :
    i ∈ g.claimIds ↔ ∃ c, r.claims.get? i = some c ∧ c.groupId = γ := by
  constructor
  · exact h.group_claim γ g hg i
  · rintro ⟨c, hc, rfl⟩
    obtain ⟨g', hg', hi, _⟩ := h.claim_group i c hc
    rw [hg] at hg'
    cases hg'
    exact hi

theorem Tables.derived (ht : r.Tables) (hd : r.Tidy) : r.Derived where
  claimsByKey k := hd.claimsByKey.get?_eq_rebuild (ht.claims.indexed k)
  intentsByPath p := hd.intentsByPath.get?_eq_rebuild fun j =>
    (ht.intents.indexed_path p j).trans (by simp [eq_comm])
  intentsByKey k := hd.intentsByKey.get?_eq_rebuild (ht.intents.indexed_key k)
  groups γ := by
    have htight := Index.tight_rebuild r.claims fun c => [c.groupId]
    have hids : ∀ i, i ∈ (Index.rebuild r.claims fun c => [c.groupId]).ids γ ↔
        ∃ c, r.claims.get? i = some c ∧ c.groupId = γ := fun i =>
      Index.mem_ids_rebuild.trans (by simp [eq_comm])
    rcases hg : r.groups.get? γ with _ | g
    · -- No claim names a group that is not there.
      refine (htight.get?_eq_none (Finset.eq_empty_of_forall_notMem fun i hi => ?_)).symm
      obtain ⟨c, hc, rfl⟩ := (hids i).1 hi
      obtain ⟨g, hg', _⟩ := ht.claims.claim_group i c hc
      rw [hg] at hg'
      cases hg'
    · refine (Index.get?_eq_some (hd.groups γ g hg) (Finset.ext fun i => ?_)).symm
      exact (hids i).trans (ht.claims.mem_claimIds hg).symm
  group_of i c g hc hg := by
    obtain ⟨g', hg', _, hb, he⟩ := ht.claims.claim_group i c hc
    rw [hg] at hg'
    cases hg'
    exact ⟨hb, he⟩

/-! ## Refreshed intents -/

/-- `r'` is `r` after live intents were refreshed in `fs`: some of them took the
    identity their path resolves to, and its keys. Nothing else changed. -/
structure Refreshed (fs : Resolver) (r r' : Registry) : Prop where
  frame : r' = { r with intents := r'.intents, intentsByKey := r'.intentsByKey }
  intents : ∀ i, r'.intents.get? i = r.intents.get? i ∨
    ∃ t current, r.intents.get? i = some t ∧ resolve fs t.configuredPath = .ok current ∧
      r'.intents.get? i = some (t.updated current)
  tight : r.intentsByKey.Tight → r'.intentsByKey.Tight

theorem Refreshed.refl (fs : Resolver) (r : Registry) : r.Refreshed fs r :=
  ⟨rfl, fun _ => .inl rfl, id⟩

variable {fs : Resolver}

theorem Refreshed.tidy (h : r.Refreshed fs r') (hd : r.Tidy) : r'.Tidy where
  claimsByKey := by rw [h.frame]; exact hd.claimsByKey
  intentsByPath := by rw [h.frame]; exact hd.intentsByPath
  intentsByKey := h.tight hd.intentsByKey
  groups := by rw [h.frame]; exact hd.groups

/-- An intent survives a refresh, with its owner, its path and its keys. -/
theorem Refreshed.survives (h : r.Refreshed fs r') {t : IntentRecord}
    (ht : r.intents.get? i = some t) : ∃ t', r'.intents.get? i = some t' ∧
      t'.owner = t.owner ∧ t'.configuredPath = t.configuredPath ∧
        t.claimKeys ⊆ t'.claimKeys := by
  rcases h.intents i with hi | ⟨t', current, ht', _, hi⟩
  · exact ⟨t, hi.trans ht, rfl, rfl, Subset.refl _⟩
  · rw [ht] at ht'
    cases ht'
    exact ⟨_, hi, rfl, rfl, fun _ hk => mem_union_left hk _⟩

/-- The refreshing loop goes through each of its identifiers once, and changes no other intent. -/
theorem refreshed_refreshIntents (fs : Resolver) {ids : List ℕ} (hids : ids.Nodup)
    (h : r.Tables) : r.Refreshed fs (refreshIntents fs ids r).2 ∧
      ∀ i, i ∉ ids → (refreshIntents fs ids r).2.intents.get? i = r.intents.get? i := by
  induction ids generalizing r with
  | nil => exact ⟨.refl fs r, fun _ _ => rfl⟩
  | cons i ids ih =>
    obtain ⟨hi, hids⟩ := nodup_cons.1 hids
    -- Passing over `i`, the loop does what it does on the rest.
    have hskip : r.Refreshed fs (refreshIntents fs ids r).2 ∧
        ∀ j, j ∉ i :: ids → (refreshIntents fs ids r).2.intents.get? j = r.intents.get? j :=
      ⟨(ih hids h).1, fun j hj => (ih hids h).2 j fun hmem => hj (mem_cons_of_mem _ hmem)⟩
    unfold refreshIntents
    split
    · exact hskip
    · next record hrecord =>
      split
      · exact hskip
      · exact ⟨.refl fs r, fun _ _ => rfl⟩
      · next current hcurrent =>
        split
        · exact hskip
        · have hid : record.intentId = i := h.intents.intent_id i record hrecord
          have hget : ∀ j, (r.updateIntent record current).intents.get? j =
              if j = i then some (record.updated current) else r.intents.get? j := fun j => by
            rw [updateIntent, Dict.get?_set, hid]
          obtain ⟨⟨hframe, hintents, htight⟩, hother⟩ :=
            ih hids (keeps_updateIntent hrecord current h).1
          refine ⟨⟨by rw [hframe]; rfl, fun j => ?_, fun h => htight (h.add _ _)⟩, fun j hj => ?_⟩
          · by_cases hji : j = i
            · subst hji
              exact .inr ⟨record, current, hrecord, hcurrent, by rw [hother j hi, hget, if_pos rfl]⟩
            · rcases hintents j with hj | ⟨t, current', ht, hcurrent', hj⟩
              · exact .inl (by rw [hj, hget, if_neg hji])
              · rw [hget, if_neg hji] at ht
                exact .inr ⟨t, current', ht, hcurrent', hj⟩
          · rw [mem_cons, not_or] at hj
            rw [hother j hj.2, hget, if_neg hj.1]

theorem refreshed_refreshIntentsLocked (fs : Resolver) (h : r.Tables) :
    r.Refreshed fs (r.refreshIntentsLocked fs).2 :=
  (refreshed_refreshIntents fs
    ((perm_insertionSort _ _).nodup_iff.2 r.intents.nodup) h).1

/-- A claim raises with nothing but refreshed intents left behind; granted, it
    enters its group in the registry so refreshed. -/
theorem claimFinish_cases (fs fs' : Resolver) (c : Call) (h : r.Tables) :
    (∃ e, (r.claimFinish fs fs' c).1 = .error e ∧
      r.Refreshed fs' (r.claimFinish fs fs' c).2) ∨
    ∃ identity r₁ γ g r₂, r.Refreshed fs' r₁ ∧ r₁.Tables ∧
      r₁.enterGroup c identity = .ok (γ, g, r₂) ∧
      r.claimFinish fs fs' c = (.ok ⟨identity, c.owner, c.external, r₂.registryNonce,
        r₂.nextClaimId + 1⟩, r₂.addClaim γ g c.owner identity c.external) := by
  have hrefresh := refreshed_refreshIntentsLocked fs' h
  have htables := (keeps_refreshIntentsLocked fs' r h).1
  unfold claimFinish
  split
  · next e _ => exact .inl ⟨e, rfl, .refl fs' r⟩
  · next identity _ =>
    unfold claimLocked
    split
    · next e r₁ hr₁ =>
      rw [hr₁] at hrefresh
      exact .inl ⟨e, rfl, hrefresh⟩
    · next r₁ hr₁ =>
      rw [hr₁] at hrefresh htables
      split
      · next e _ => exact .inl ⟨e, rfl, hrefresh⟩
      · next γ g r₂ hgroup =>
        exact .inr ⟨identity, r₁, γ, g, r₂, hrefresh, htables, hgroup, rfl⟩

/-- A reservation raises with nothing but refreshed intents left behind; granted,
    it enters the registry so refreshed. -/
theorem reserveExternalIntent_cases (os : OsPath) (fs fs' : Resolver) (configured owner : String)
    (h : r.Tables) :
    (∃ e, (r.reserveExternalIntent os fs fs' configured owner).1 = .error e ∧
      r.Refreshed fs' (r.reserveExternalIntent os fs fs' configured owner).2) ∨
    ∃ owner' normalized identity lease r₁, r.Refreshed fs' r₁ ∧ r₁.Tables ∧
      r.reserveExternalIntent os fs fs' configured owner =
        (.ok lease, r₁.addIntent owner' configured normalized identity) := by
  have hreserve : ∀ owner normalized identity,
      (∃ e, (reserveExternalIntent.reserve fs' configured r owner normalized identity).1 =
          .error e ∧
        r.Refreshed fs' (reserveExternalIntent.reserve fs' configured r owner normalized
          identity).2) ∨
      ∃ owner' normalized' identity' lease r₁, r.Refreshed fs' r₁ ∧ r₁.Tables ∧
        reserveExternalIntent.reserve fs' configured r owner normalized identity =
          (.ok lease, r₁.addIntent owner' configured normalized' identity') := by
    intro owner normalized identity
    have hrefresh := refreshed_refreshIntentsLocked fs' h
    have htables := (keeps_refreshIntentsLocked fs' r h).1
    unfold reserveExternalIntent.reserve
    split
    · next e r₁ hr₁ =>
      rw [hr₁] at hrefresh
      exact .inl ⟨e, rfl, hrefresh⟩
    · next r₁ hr₁ =>
      rw [hr₁] at hrefresh htables
      split
      · next e _ => exact .inl ⟨e, rfl, hrefresh⟩
      · exact .inr ⟨owner, normalized, identity, _, r₁, hrefresh, htables, rfl⟩
  unfold reserveExternalIntent
  split
  · next e _ _ => exact .inl ⟨_, rfl, .refl fs' r⟩
  · exact .inl ⟨_, rfl, .refl fs' r⟩
  · split
    · exact hreserve _ _ _
    · exact .inl ⟨_, rfl, .refl fs' r⟩
    · exact hreserve _ _ _

/-- Revalidating an intent raises with nothing left behind, else refreshes that intent. -/
theorem revalidateIntent_cases (fs : Resolver) (lease : IntentLease) (h : r.Tables) :
    (∃ e, r.revalidateIntent fs lease = (.error e, r)) ∨
      ∃ o, (r.revalidateIntent fs lease).1 = .ok o ∧
        r.Refreshed fs (r.revalidateIntent fs lease).2 := by
  unfold revalidateIntent
  split
  · next e _ => exact .inl ⟨e, rfl⟩
  · next record hrecord =>
    split
    · exact .inr ⟨_, rfl, .refl fs r⟩
    · next e _ _ => exact .inl ⟨_, rfl⟩
    · next current hcurrent =>
      split
      · exact .inr ⟨_, rfl, .refl fs r⟩
      · have hget := activeIntentFor_ok hrecord
        have hid := h.intents.intent_id _ record hget
        refine .inr ⟨_, rfl, rfl, fun i => ?_, fun h => h.add _ _⟩
        rw [updateIntent, Dict.get?_set, hid]
        split_ifs with hi
        · exact .inr ⟨record, current, hi ▸ hget, hcurrent, rfl⟩
        · exact .inl rfl

/-! ## Tidiness -/

theorem Tidy.addIntent (h : r.Tidy) (owner configured normalized : String)
    (identity : Option SerialDeviceIdentity) :
    (r.addIntent owner configured normalized identity).Tidy :=
  ⟨h.claimsByKey, h.intentsByPath.add _ _, h.intentsByKey.add _ _, h.groups⟩

theorem Tidy.releaseIntent (h : r.Tidy) (i : ℕ) : (r.releaseIntent i).Tidy := by
  unfold Registry.releaseIntent
  split
  · exact h
  · exact ⟨h.claimsByKey, h.intentsByPath.drop _ _, h.intentsByKey.drop _ _, h.groups⟩

variable {identity : SerialDeviceIdentity}

/-- A claim let in makes its group a member richer, a new group included. -/
theorem Tidy.addClaim (h : r.Tidy) (ht : r.Tables) {c : Call}
    {γ : ℕ} (hgroup : r.enterGroup c identity = .ok (γ, g, r'))
    (owner : String) (external : Bool) : (r'.addClaim γ g owner identity external).Tidy := by
  obtain ⟨_, _, _, hgroups, hr'⟩ := enterGroup_enters ht hgroup
  refine ⟨?_, ?_, ?_, fun δ d hδ => ?_⟩
  · rw [Registry.addClaim, hr']
    exact h.claimsByKey.add _ _
  · rw [Registry.addClaim, hr']
    exact h.intentsByPath
  · rw [Registry.addClaim, hr']
    exact h.intentsByKey
  · rw [Registry.addClaim, Dict.get?_set] at hδ
    split_ifs at hδ with hγ
    · cases hδ
      exact Finset.insert_nonempty _ _
    · rw [hgroups δ hγ] at hδ
      exact h.groups δ d hδ

theorem Tidy.release (h : r.Tidy) (i : ℕ) : (r.release i).Tidy := by
  unfold Registry.release
  split
  · exact h
  · next record hrecord =>
    refine ⟨h.claimsByKey.drop _ _, h.intentsByPath, h.intentsByKey, fun δ d hδ => ?_⟩
    dsimp only at hδ
    rcases hg : r.groups.get? record.groupId with _ | g
    · rw [hg] at hδ
      exact h.groups δ d hδ
    · rw [hg] at hδ
      dsimp only at hδ
      split_ifs at hδ with hempty
      · rw [Dict.get?_erase] at hδ
        split_ifs at hδ
        exact h.groups δ d hδ
      · rw [Dict.get?_set] at hδ
        split_ifs at hδ
        · cases hδ
          exact Finset.nonempty_iff_ne_empty.2 hempty
        · exact h.groups δ d hδ

/-! ## Releases -/

/-- `r'` is `r` without the claim `i`: its record, its entries under its keys, its
    place in its group, and the group with its last claim. -/
structure WithoutClaim (i : ℕ) (r r' : Registry) : Prop where
  frame : r' = { r with claims := r.claims.erase i, claimsByKey := r'.claimsByKey,
                        groups := r'.groups }
  claimsByKey : ∀ k, r'.claimsByKey.ids k = (r.claimsByKey.ids k).erase i
  groups : ∀ γ, r'.groups.get? γ = (r.groups.get? γ).bind fun g =>
    if g.claimIds.erase i = ∅ then none else some { g with claimIds := g.claimIds.erase i }

/-- `r'` is `r` without the intent `i`: its record and its entries under its path and keys. -/
structure WithoutIntent (i : ℕ) (r r' : Registry) : Prop where
  frame : r' = { r with intents := r.intents.erase i, intentsByPath := r'.intentsByPath,
                        intentsByKey := r'.intentsByKey }
  intentsByPath : ∀ p, r'.intentsByPath.ids p = (r.intentsByPath.ids p).erase i
  intentsByKey : ∀ k, r'.intentsByKey.ids k = (r.intentsByKey.ids k).erase i

theorem release_of_none (h : r.claims.get? i = none) : r.release i = r := by
  rw [release, h]

theorem releaseIntent_of_none (h : r.intents.get? i = none) : r.releaseIntent i = r := by
  rw [releaseIntent, h]

theorem release_withoutClaim (ht : r.Tables) (hd : r.Tidy) {c : ClaimRecord}
    (hc : r.claims.get? i = some c) : r.WithoutClaim i (r.release i) := by
  obtain ⟨g, hg, hi, _⟩ := ht.claims.claim_group i c hc
  have hrelease : r.release i = { r with
      claims := r.claims.erase i
      claimsByKey := r.claimsByKey.drop c.identity.claimKeys i
      groups := if g.claimIds.erase i = ∅ then r.groups.erase c.groupId
        else r.groups.set c.groupId { g with claimIds := g.claimIds.erase i } } := by
    simp only [release, hc, hg]
  rw [hrelease]
  refine ⟨rfl, fun k => Finset.ext fun j => ?_, fun γ => ?_⟩
  · -- Under a key that is none of its own, the claim was not found anyway.
    rw [Index.mem_ids_drop, Finset.mem_erase, and_comm]
    refine and_congr_left fun hj => not_congr ⟨fun h => h.1, fun hji => ⟨hji, ?_⟩⟩
    obtain ⟨c', hc', hk⟩ := (ht.claims.indexed k j).1 hj
    rw [hji, hc] at hc'
    cases hc'
    exact hk
  · by_cases hγ : γ = c.groupId
    · subst hγ
      rw [hg, Option.bind_some]
      split_ifs with hempty
      · exact Dict.get?_erase_self
      · exact Dict.get?_set_self
    · -- Another group does not have the claim, and is not empty.
      have hother : (if g.claimIds.erase i = ∅ then r.groups.erase c.groupId
          else r.groups.set c.groupId { g with claimIds := g.claimIds.erase i }).get? γ =
            r.groups.get? γ := by
        split_ifs
        · exact Dict.get?_erase_of_ne hγ
        · exact Dict.get?_set_of_ne hγ
      refine hother.trans ?_
      rcases hd' : r.groups.get? γ with _ | d
      · rfl
      · have hnot : i ∉ d.claimIds := fun hmem => by
          obtain ⟨c', hc', hγ'⟩ := ht.claims.group_claim γ d hd' i hmem
          rw [hc] at hc'
          cases hc'
          exact hγ hγ'.symm
        rw [Option.bind_some, Finset.erase_eq_of_notMem hnot,
          if_neg (hd.groups γ d hd').ne_empty]

theorem releaseIntent_withoutIntent (ht : r.Tables) {t : IntentRecord}
    (hi : r.intents.get? i = some t) : r.WithoutIntent i (r.releaseIntent i) := by
  rw [releaseIntent, hi]
  refine ⟨rfl, fun p => Finset.ext fun j => ?_, fun k => Finset.ext fun j => ?_⟩
  · rw [Index.mem_ids_drop, Finset.mem_erase, and_comm]
    refine and_congr_left fun hj => not_congr ⟨fun h => h.1, fun hji => ⟨hji, ?_⟩⟩
    obtain ⟨t', ht', hp⟩ := (ht.intents.indexed_path p j).1 hj
    rw [hji, hi] at ht'
    cases ht'
    exact mem_singleton.2 hp.symm
  · rw [Index.mem_ids_drop, Finset.mem_erase, and_comm]
    refine and_congr_left fun hj => not_congr ⟨fun h => h.1, fun hji => ⟨hji, ?_⟩⟩
    obtain ⟨t', ht', hk⟩ := (ht.intents.indexed_key k j).1 hj
    rw [hji, hi] at ht'
    cases ht'
    exact hk

/-! ## Identifiers given up -/

/-- A claim or a group of `r'` that `r` could already name was one of `r`: the
    same claim, and the same group but for its members. -/
structure Ages (r r' : Registry) : Prop where
  nonce : r'.registryNonce = r.registryNonce
  claim_le : r.nextClaimId ≤ r'.nextClaimId
  group_le : r.nextGroupId ≤ r'.nextGroupId
  claim : ∀ i c, i ≤ r.nextClaimId → r'.claims.get? i = some c → r.claims.get? i = some c
  group : ∀ γ g', γ ≤ r.nextGroupId → r'.groups.get? γ = some g' →
    ∃ g, r.groups.get? γ = some g ∧ g' = { g with claimIds := g'.claimIds }

theorem Ages.refl (r : Registry) : r.Ages r :=
  ⟨rfl, le_rfl, le_rfl, fun _ _ _ h => h, fun _ g' _ h => ⟨g', h, rfl⟩⟩

theorem Ages.trans {r₁ r₂ r₃ : Registry} (h : r₁.Ages r₂) (h' : r₂.Ages r₃) : r₁.Ages r₃ := by
  refine ⟨h'.nonce.trans h.nonce, h.claim_le.trans h'.claim_le, h.group_le.trans h'.group_le,
    fun i c hi hc => h.claim i c hi (h'.claim i c (hi.trans h.claim_le) hc), fun γ g₃ hγ hg₃ => ?_⟩
  obtain ⟨g₂, hg₂, he₃⟩ := h'.group γ g₃ (hγ.trans h.group_le) hg₃
  obtain ⟨g₁, hg₁, he₂⟩ := h.group γ g₂ hγ hg₂
  exact ⟨g₁, hg₁, by rw [he₃, he₂]⟩

/-- What leaves the claims and the groups alone ages nothing. -/
theorem Ages.of_eq (hn : r'.registryNonce = r.registryNonce) (hc : r'.claims = r.claims)
    (hg : r'.groups = r.groups) (hi : r'.nextClaimId = r.nextClaimId)
    (hj : r'.nextGroupId = r.nextGroupId) : r.Ages r' := by
  refine ⟨hn, hi.ge, hj.ge, fun i c _ h => hc ▸ h, fun γ g' _ h => ⟨g', hg ▸ h, rfl⟩⟩

theorem Refreshed.ages (h : r.Refreshed fs r') : r.Ages r' := by
  refine .of_eq ?_ ?_ ?_ ?_ ?_ <;> rw [h.frame]

theorem WithoutClaim.ages (h : r.WithoutClaim i r') : r.Ages r' := by
  refine ⟨by rw [h.frame], by rw [h.frame], by rw [h.frame], fun j c _ hc => ?_,
    fun γ g' _ hg' => ?_⟩
  · rw [h.frame, Dict.get?_erase] at hc
    split_ifs at hc
    exact hc
  · rw [h.groups] at hg'
    obtain ⟨g, hg, hif⟩ := Option.bind_eq_some_iff.1 hg'
    split_ifs at hif
    cases hif
    exact ⟨g, hg, rfl⟩

/-- A claim let in has a new number, and so has a group made for it. -/
theorem ages_addClaim (ht : r.Tables) {c : Call} {γ : ℕ}
    (h : r.enterGroup c identity = .ok (γ, g, r')) (owner : String)
    (external : Bool) : r.Ages (r'.addClaim γ g owner identity external) := by
  obtain ⟨_, _, hle, hgroups, hr'⟩ := enterGroup_enters ht h
  refine ⟨by rw [addClaim, hr'], ?_, hle, fun i c' hi hc => ?_, fun δ d hδ hd => ?_⟩
  · rw [addClaim, hr']
    exact Nat.le_succ _
  · have hne : i ≠ r'.nextClaimId + 1 := by
      rw [hr']
      exact (Nat.lt_succ_of_le hi).ne
    rw [addClaim, Dict.get?_set_of_ne hne, hr'] at hc
    exact hc
  · rw [addClaim, Dict.get?_set] at hd
    split_ifs at hd with hδγ
    · cases hd
      subst hδγ
      obtain ⟨_, _, _, _, ⟨_, hnew⟩ | ⟨_, rfl, hget, _⟩⟩ := enterGroup_ok h
      · -- The group is new: its number was not one of `r`.
        simp only [newGroup, Prod.mk.injEq] at hnew
        omega
      · exact ⟨g, hget, rfl⟩
    · rw [hgroups δ hδγ] at hd
      exact ⟨d, hd, rfl⟩

/-! ## Share tokens -/

/-- The token is of a share group of the registry that has an active claim, is
    not external, and is bound to the endpoint of `identity`. -/
def Authorises (r : Registry) (token : ShareToken) (identity : SerialDeviceIdentity) : Prop :=
  token.registryNonce = r.registryNonce ∧ ∃ g, r.groups.get? token.groupId = some g ∧
    g.shareNonce = token.groupNonce ∧ g.external = false ∧
      g.identity.binding = identity.binding ∧
        ∃ i c, r.claims.get? i = some c ∧ c.groupId = token.groupId

/-- A claim with a token enters the group of the token, as it finds it. -/
theorem enterGroup_token {c : Call} {γ : ℕ}
    {token : ShareToken} (htoken : c.shareToken = some token)
    (h : r.enterGroup c identity = .ok (γ, g, r')) :
    r.groups.get? token.groupId = some g ∧ token.registryNonce = r.registryNonce ∧
      g.shareNonce = token.groupNonce ∧ g.external = false ∧
        g.identity.binding = identity.binding := by
  obtain ⟨_, _, h⟩ := Fallible.bind_ok h
  obtain ⟨_, h⟩ := Fallible.guard_ok h
  obtain ⟨_, _, h⟩ := Fallible.bind_ok h
  obtain ⟨_, h⟩ := Fallible.guard_ok h
  obtain ⟨colliding, _, h⟩ := Fallible.bind_ok h
  rw [htoken] at h
  obtain ⟨_, h⟩ := Fallible.guard_ok h
  obtain ⟨⟨γ', g'⟩, hvalid, h⟩ := Fallible.bind_ok h
  cases h
  have hgroup : γ = token.groupId ∧ token.registryNonce = r.registryNonce ∧
      g.shareNonce = token.groupNonce := by
    unfold validateShareToken at hvalid
    split at hvalid
    · cases hvalid
    · split_ifs at hvalid with hbad
      cases hvalid
      simp only [not_or, not_not] at hbad
      exact ⟨rfl, hbad.1, hbad.2.1.symm⟩
  obtain ⟨hget, hext, hsame, _⟩ := validateShareToken_ok hvalid
  exact ⟨hgroup.1 ▸ hget, hgroup.2.1, hgroup.2.2, hext, hsame.symm⟩

/-- A claim granted with a token is one the token authorises when it is made. -/
theorem claimFinish_authorised (ht : r.Tables) (hd : r.Tidy) {fs' : Resolver} {c : Call}
    {token : ShareToken} {lease : Lease} (htoken : c.shareToken = some token)
    (h : (r.claimFinish fs fs' c).1 = .ok lease) : r.Authorises token lease.identity := by
  rcases claimFinish_cases fs fs' c ht with
    ⟨e, he, _⟩ | ⟨identity, r₁, γ, g, r₂, hrefresh, ht₁, hgroup, hfinish⟩
  · rw [he] at h
    cases h
  · rw [hfinish] at h
    cases h
    obtain ⟨hget, hnonce, hshare, hext, hb⟩ := enterGroup_token htoken hgroup
    -- The refresh left the groups and the claims as they were.
    have hget' : r.groups.get? token.groupId = some g := by
      rw [hrefresh.frame] at hget
      exact hget
    have hnonce' : token.registryNonce = r.registryNonce := by
      rw [hrefresh.frame] at hnonce
      exact hnonce
    obtain ⟨i, hi⟩ := hd.groups token.groupId g hget'
    obtain ⟨c', hc', hγ⟩ := ht.claims.group_claim token.groupId g hget' i hi
    exact ⟨hnonce', g, hget', hshare, hext, hb, i, c', hc', hγ⟩

/-- A token is issued for the group of the lease, bound to its endpoint. -/
theorem issueShareToken_ok (ht : r.Tables) {lease : Lease} {token : ShareToken}
    (h : r.issueShareToken lease = .ok token) :
    ∃ g, r.groups.get? token.groupId = some g ∧
      g.identity.binding = lease.identity.binding := by
  obtain ⟨record, hrecord, h⟩ := Fallible.bind_ok h
  have hget : r.claims.get? lease.claimId = some record ∧ record.identity = lease.identity := by
    unfold activeRecordFor at hrecord
    split_ifs at hrecord
    split at hrecord
    · cases hrecord
    · next hget =>
      split_ifs at hrecord with hbad
      cases hrecord
      exact ⟨hget, not_not.1 (not_or.1 hbad).2⟩
  obtain ⟨g, hg, _, hb, _⟩ := ht.claims.claim_group _ _ hget.1
  simp only [hg] at h
  obtain ⟨_, h⟩ := Fallible.guard_ok h
  cases h
  exact ⟨g, hg, hb.trans (by rw [hget.2])⟩

end Registry

/-! ## Runs -/

/-- The call raises `e`, whatever `revalidate` finds at its second reading of the registry. -/
def System.Raises (s : System) (e : Error) : Label → Prop
  | .claimStart os configured owner external shareToken =>
    s.registry.claimStart os configured owner external shareToken = .error e
  | .claimFinish fs fs' c => (s.registry.claimFinish fs fs' c).1 = .error e
  | .reserveExternalIntent os fs fs' configured owner =>
    (s.registry.reserveExternalIntent os fs fs' configured owner).1 = .error e
  | .revalidate fs lease => ∃ r', s.registry.revalidate fs lease r' = .error e
  | .revalidateIntent fs lease => (s.registry.revalidateIntent fs lease).1 = .error e
  | .release _ => False
  | .releaseIntent _ => False
  | .issueShareToken lease => s.registry.issueShareToken lease = .error e

/-- The filesystem in which a call refreshes the live intents, if it does. -/
def Label.refreshedIn : Label → Option Resolver
  | .claimFinish _ fs' _ => some fs'
  | .reserveExternalIntent _ _ fs' _ _ => some fs'
  | _ => none

variable {s : System}

variable (ht : s.registry.Tables)
include ht

/-- A call that raises leaves the registry as it was, but for refreshed intents. -/
theorem raises_next {a : Label} {e : Error} (h : s.Raises e a) : (s.next a).registry = s.registry ∨
      ∃ fs, a.refreshedIn = some fs ∧ s.registry.Refreshed fs (s.next a).registry := by
  cases a with
  | claimStart os configured owner external shareToken =>
    refine .inl ?_
    change s.registry.claimStart os configured owner external shareToken = .error e at h
    rw [System.next, h]
  | claimFinish fs fs' c =>
    change (s.registry.claimFinish fs fs' c).1 = .error e at h
    refine .inr ⟨fs', rfl, ?_⟩
    rcases Registry.claimFinish_cases fs fs' c ht with
      ⟨_, _, hr⟩ | ⟨_, _, _, _, _, _, _, _, hfinish⟩
    · exact hr
    · rw [hfinish] at h
      cases h
  | reserveExternalIntent os fs fs' configured owner =>
    change (s.registry.reserveExternalIntent os fs fs' configured owner).1 = .error e at h
    refine .inr ⟨fs', rfl, ?_⟩
    rcases Registry.reserveExternalIntent_cases os fs fs' configured owner ht with
      ⟨_, _, hr⟩ | ⟨_, _, _, _, _, _, _, hreserve⟩
    · exact hr
    · rw [hreserve] at h
      cases h
  | revalidate fs lease | issueShareToken lease => exact .inl rfl
  | revalidateIntent fs lease =>
    change (s.registry.revalidateIntent fs lease).1 = .error e at h
    rcases Registry.revalidateIntent_cases fs lease ht with ⟨_, he⟩ | ⟨_, ho, _⟩
    · exact .inl (by rw [System.next, he])
    · rw [ho] at h
      cases h
  | release i | releaseIntent i => exact h.elim

theorem tidy_next (hd : s.registry.Tidy) (a : Label) : (s.next a).registry.Tidy := by
  cases a with
  | claimStart os configured owner external shareToken =>
    simp only [System.next]
    split
    · exact hd
    · exact hd
  | claimFinish fs fs' c =>
    rcases Registry.claimFinish_cases fs fs' c ht with
      ⟨_, _, hr⟩ | ⟨_, _, _, _, _, hr, ht₁, hgroup, hfinish⟩
    · exact hr.tidy hd
    · rw [System.next, hfinish]
      exact (hr.tidy hd).addClaim ht₁ hgroup _ _
  | reserveExternalIntent os fs fs' configured owner =>
    rcases Registry.reserveExternalIntent_cases os fs fs' configured owner ht with
      ⟨_, _, hr⟩ | ⟨_, _, _, _, _, hr, _, hreserve⟩
    · exact hr.tidy hd
    · rw [System.next, hreserve]
      exact (hr.tidy hd).addIntent _ _ _ _
  | revalidate fs lease => exact hd
  | revalidateIntent fs lease =>
    rcases Registry.revalidateIntent_cases fs lease ht with ⟨_, he⟩ | ⟨_, _, hr⟩
    · rw [System.next, he]
      exact hd
    · exact hr.tidy hd
  | release i => exact hd.release i
  | releaseIntent i => exact hd.releaseIntent i
  | issueShareToken lease => exact hd

theorem ages_next (hd : s.registry.Tidy) (a : Label) : s.registry.Ages (s.next a).registry := by
  cases a with
  | claimStart os configured owner external shareToken =>
    simp only [System.next]
    split
    all_goals exact .refl _
  | claimFinish fs fs' c =>
    rcases Registry.claimFinish_cases fs fs' c ht with
      ⟨_, _, hr⟩ | ⟨_, _, _, _, _, hr, ht₁, hgroup, hfinish⟩
    · exact hr.ages
    · rw [System.next, hfinish]
      exact hr.ages.trans (Registry.ages_addClaim ht₁ hgroup _ _)
  | reserveExternalIntent os fs fs' configured owner =>
    rcases Registry.reserveExternalIntent_cases os fs fs' configured owner ht with
      ⟨_, _, hr⟩ | ⟨_, _, _, _, _, hr, _, hreserve⟩
    · exact hr.ages
    · rw [System.next, hreserve]
      exact hr.ages.trans (.of_eq rfl rfl rfl rfl rfl)
  | revalidate fs lease | issueShareToken lease => exact .refl _
  | revalidateIntent fs lease =>
    rcases Registry.revalidateIntent_cases fs lease ht with ⟨_, he⟩ | ⟨_, _, hr⟩
    · rw [System.next, he]
      exact .refl _
    · exact hr.ages
  | release i =>
    rcases hi : s.registry.claims.get? i with _ | c
    · rw [System.next, Registry.release_of_none hi]
      exact .refl _
    · exact (Registry.release_withoutClaim ht hd hi).ages
  | releaseIntent i =>
    rcases hi : s.registry.intents.get? i with _ | t
    · rw [System.next, Registry.releaseIntent_of_none hi]
      exact .refl _
    · rw [System.next, (Registry.releaseIntent_withoutIntent ht hi).frame]
      exact .of_eq rfl rfl rfl rfl rfl

/-- An intent stays until it is released, and loses no key. -/
theorem survives_next {a : Label} {i : ℕ} {t : IntentRecord}
    (hi : s.registry.intents.get? i = some t) (ha : a ≠ .releaseIntent i) :
    ∃ t', (s.next a).registry.intents.get? i = some t' ∧ t.claimKeys ⊆ t'.claimKeys := by
  have hsame : ∃ t', s.registry.intents.get? i = some t' ∧ t.claimKeys ⊆ t'.claimKeys :=
    ⟨t, hi, Subset.refl _⟩
  cases a with
  | claimStart os configured owner external shareToken =>
    simp only [System.next]
    split
    all_goals exact hsame
  | claimFinish fs fs' c =>
    rcases Registry.claimFinish_cases fs fs' c ht with
      ⟨_, _, hr⟩ | ⟨_, _, _, _, _, hr, ht₁, hgroup, hfinish⟩
    · obtain ⟨t', ht', _, _, hk⟩ := hr.survives hi
      exact ⟨t', ht', hk⟩
    · obtain ⟨t', ht', _, _, hk⟩ := hr.survives hi
      obtain ⟨_, _, _, _, hr₂⟩ := Registry.enterGroup_enters ht₁ hgroup
      refine ⟨t', ?_, hk⟩
      rw [System.next, hfinish, Registry.addClaim, hr₂]
      exact ht'
  | reserveExternalIntent os fs fs' configured owner =>
    rcases Registry.reserveExternalIntent_cases os fs fs' configured owner ht with
      ⟨_, _, hr⟩ | ⟨_, _, _, _, r₁, hr, ht₁, hreserve⟩
    · obtain ⟨t', ht', _, _, hk⟩ := hr.survives hi
      exact ⟨t', ht', hk⟩
    · obtain ⟨t', ht', _, _, hk⟩ := hr.survives hi
      have hle := ht₁.intents.intent_le i t' ht'
      refine ⟨t', ?_, hk⟩
      rw [System.next, hreserve, Registry.addIntent, Dict.get?_set_of_ne (by omega)]
      exact ht'
  | revalidate fs lease | issueShareToken lease => exact hsame
  | revalidateIntent fs lease =>
    rcases Registry.revalidateIntent_cases fs lease ht with ⟨_, he⟩ | ⟨_, _, hr⟩
    · rw [System.next, he]
      exact hsame
    · obtain ⟨t', ht', _, _, hk⟩ := hr.survives hi
      exact ⟨t', ht', hk⟩
  | release j =>
    rcases hj : s.registry.claims.get? j with _ | c
    · rw [System.next, Registry.release_of_none hj]
      exact hsame
    · refine ⟨t, ?_, Subset.refl _⟩
      rw [System.next, Registry.release, hj]
      exact hi
  | releaseIntent j =>
    have hji : i ≠ j := fun h => ha (by rw [h])
    rcases hj : s.registry.intents.get? j with _ | t'
    · rw [System.next, Registry.releaseIntent_of_none hj]
      exact hsame
    · refine ⟨t, ?_, Subset.refl _⟩
      rw [System.next, (Registry.releaseIntent_withoutIntent ht hj).frame,
        Dict.get?_erase_of_ne hji]
      exact hi

omit ht

theorem reachable_tidy (h : system.Reachable s) : s.registry.Tables ∧ s.registry.Tidy := by
  refine Transition.Reach.induction
    (I := fun s => s.registry.Tables ∧ s.registry.Tidy) (fun s hs => ?_)
    (fun s a s' ih _ hs => ?_) h
  · obtain ⟨nonce, rfl⟩ := hs
    exact ⟨reachable_tables (Transition.Reach.init ⟨nonce, rfl⟩), Registry.tidy_new nonce⟩
  · rw [hs.2]
    exact ⟨(keeps_next s a ih.1).1, tidy_next ih.1 ih.2 a⟩

theorem leads_ages {t : System} (h : system.Reachable s)
    (hs : system.Leads (fun _ _ => True) s t) : s.registry.Ages t.registry :=
  Transition.Leads.induction (R := fun s t => s.registry.Ages t.registry)
    (fun s => .refl s.registry) (fun _ _ _ => .trans)
    (fun s a s' hr _ hs => by
      obtain ⟨ht, hd⟩ := reachable_tidy hr
      rw [hs.2]
      exact ages_next ht hd a) h hs

/-- A claim released is not there at any later time. -/
theorem release_repeated (h : system.Reachable s) {i : ℕ} {c : ClaimRecord}
    (hc : s.registry.claims.get? i = some c) {t : System}
    (hs : system.Leads (fun _ _ => True) (s.next (.release i)) t) : t.next (.release i) = t := by
  obtain ⟨ht, hd⟩ := reachable_tidy h
  have hages := leads_ages (.step (a := .release i) h ⟨trivial, rfl⟩) hs
  have hout := Registry.release_withoutClaim ht hd hc
  have hnone : t.registry.claims.get? i = none := by
    refine Option.eq_none_iff_forall_ne_some.2 fun c' hc' => ?_
    have hc'' := hages.claim i c'
      ((ht.claims.claim_le i c hc).trans (Registry.WithoutClaim.ages hout).claim_le) hc'
    rw [System.next, hout.frame, Dict.get?_erase_self] at hc''
    cases hc''
  rw [System.next, Registry.release_of_none hnone]

/-- An intent released is not there at any later time. -/
theorem releaseIntent_repeated (h : system.Reachable s) {i : ℕ} {t : IntentRecord}
    (hi : s.registry.intents.get? i = some t) {s' : System}
    (hs : system.Leads (fun _ _ => True) (s.next (.releaseIntent i)) s') :
    s'.next (.releaseIntent i) = s' := by
  have ht := reachable_tables h
  have hgrows := leads_grows (Transition.Reachable.step (a := .releaseIntent i) h ⟨trivial, rfl⟩) hs
  have hout := Registry.releaseIntent_withoutIntent ht hi
  have hnone : s'.registry.intents.get? i = none :=
    Option.eq_none_iff_forall_ne_some.2 fun t' ht' => by
      have hle : i ≤ (s.next (.releaseIntent i)).registry.nextIntentId := by
        rw [System.next, hout.frame]
        exact ht.intents.intent_le i t hi
      obtain ⟨t₁, ht₁, _⟩ := hgrows.2 i t' hle ht'
      rw [System.next, hout.frame, Dict.get?_erase_self] at ht₁
      cases ht₁
  rw [System.next, Registry.releaseIntent_of_none hnone]

/-- What the tables of a registry keep, in every reachable state `s`.

    * The indexes and the groups are the ones recomputed from the records.
    * A call that raises leaves everything as it was, but that some intents may
      have taken the identity their path resolves to, with its keys.
    * An intent keeps its keys until it is released.
    * A release takes out the entries of its claim or intent and no others, and
      from then on does nothing; nor does one of an identifier that is not there.
    * A claim is granted with a share token only while the group the token was
      issued for has an active claim, is not external, and is bound to the
      endpoint of the claim, which is the one of the lease the token came from. -/
theorem serial_tables_derived (h : system.Reachable s) :
    s.registry.Derived ∧
    (∀ a e, a.enabled s → s.Raises e a → (s.next a).registry = s.registry ∨
      ∃ fs, a.refreshedIn = some fs ∧ s.registry.Refreshed fs (s.next a).registry) ∧
    (∀ i t s', s.registry.intents.get? i = some t →
      system.Leads (fun _ a => a ≠ .releaseIntent i) s s' →
        ∃ t', s'.registry.intents.get? i = some t' ∧ t.claimKeys ⊆ t'.claimKeys) ∧
    ((∀ i c, s.registry.claims.get? i = some c →
        s.registry.WithoutClaim i (s.next (.release i)).registry ∧
        ∀ s', system.Leads (fun _ _ => True) (s.next (.release i)) s' →
          s'.next (.release i) = s') ∧
      ∀ i, s.registry.claims.get? i = none → s.next (.release i) = s) ∧
    ((∀ i t, s.registry.intents.get? i = some t →
        s.registry.WithoutIntent i (s.next (.releaseIntent i)).registry ∧
        ∀ s', system.Leads (fun _ _ => True) (s.next (.releaseIntent i)) s' →
          s'.next (.releaseIntent i) = s') ∧
      ∀ i, s.registry.intents.get? i = none → s.next (.releaseIntent i) = s) ∧
    ∀ fs fs' c token lease, c ∈ s.inflight → c.shareToken = some token →
      (s.registry.claimFinish fs fs' c).1 = .ok lease →
        s.registry.Authorises token lease.identity ∧
        ∀ s₀ issuer, system.Reachable s₀ → s₀.registry.issueShareToken issuer = .ok token →
          system.Leads (fun _ _ => True) s₀ s →
            issuer.identity.binding = lease.identity.binding ∧
            ∃ g₀ g, s₀.registry.groups.get? token.groupId = some g₀ ∧
              s.registry.groups.get? token.groupId = some g ∧
                g = { g₀ with claimIds := g.claimIds } := by
  obtain ⟨ht, hd⟩ := reachable_tidy h
  refine ⟨ht.derived hd, fun a e _ => raises_next ht, fun i t s' hi hs => ?_,
    ⟨fun i c hc => ⟨Registry.release_withoutClaim ht hd hc, fun _ => release_repeated h hc⟩,
      fun i hi => by rw [System.next, Registry.release_of_none hi]⟩,
    ⟨fun i t hi => ⟨Registry.releaseIntent_withoutIntent ht hi,
        fun _ => releaseIntent_repeated h hi⟩,
      fun i hi => by rw [System.next, Registry.releaseIntent_of_none hi]⟩,
    fun fs fs' c token lease _ htoken hlease => ?_⟩
  · -- Each step of the run keeps the intent, with the keys it has in `s`.
    refine (Transition.Leads.invariant (I := fun s' => s'.registry.Tables ∧
      ∃ t', s'.registry.intents.get? i = some t' ∧ t.claimKeys ⊆ t'.claimKeys)
      (fun s₁ a s₂ ih ha hs => ?_) ⟨ht, t, hi, Subset.refl _⟩ hs).2
    obtain ⟨ht₁, t₁, hi₁, hk₁⟩ := ih
    obtain ⟨t₂, hi₂, hk₂⟩ := survives_next ht₁ hi₁ ha
    rw [hs.2]
    exact ⟨(keeps_next s₁ a ht₁).1, t₂, hi₂, Subset.trans hk₁ hk₂⟩
  · have hauth := Registry.claimFinish_authorised ht hd htoken hlease
    refine ⟨hauth, fun s₀ issuer h₀ hissue hs => ?_⟩
    obtain ⟨g₀, hg₀, hb₀⟩ := Registry.issueShareToken_ok (reachable_tables h₀) hissue
    obtain ⟨_, g, hg, _, _, hb, _⟩ := hauth
    -- Group numbers are not reused: the group is the one of the time of issue.
    obtain ⟨g₁, hg₁, he⟩ := (leads_ages h₀ hs).group token.groupId g
      ((reachable_tables h₀).claims.group_le _ g₀ hg₀) hg
    rw [hg₀] at hg₁
    cases hg₁
    refine ⟨?_, g₀, g, hg₀, hg, he⟩
    rw [← hb₀, ← hb, he]

theorem serial_tables_derived_beside_intent :
    besideIntent.registry.Derived ∧
      besideIntent.registry.WithoutIntent 1 (besideIntent.next (.releaseIntent 1)).registry := by
  have hnext : ∀ s a, system.Reachable s → a.enabled s → system.Reachable (s.next a) :=
    fun s a h he => h.step ⟨he, rfl⟩
  have hreach : system.Reachable besideIntent :=
    hnext _ (.claimStart plainPaths "/dev/gps" "gps" false none)
      (hnext _ (.reserveExternalIntent plainPaths gpsOnly gpsOnly "/dev/rnode" "rnsd")
        (.init ⟨0, rfl⟩) trivial) trivial
  obtain ⟨hderived, _, _, _, ⟨hout, _⟩, _⟩ := serial_tables_derived hreach
  refine ⟨hderived, (hout 1 ⟨1, "rnsd", "/dev/rnode", "/dev/rnode", none, []⟩ ?_).1⟩
  decide +kernel

/-! ## What a failed call replaces -/

/-- A radio and a GPS receiver, on the first or the second serial port. -/
def onPorts (rnode gps : ℕ) : Resolver := fun path =>
  let port := if path = "/dev/rnode" then rnode else gps
  .found (if port = 0 then "/dev/ttyUSB0" else "/dev/ttyUSB1") 188 port none

/-- The radio is reserved on the first port and found on the second; then a
    claim of the receiver is between its critical sections. -/
def afterReplug : System :=
  (((⟨.new 0, []⟩ : System).next
    (.reserveExternalIntent plainPaths (onPorts 0 1) (onPorts 0 1) "/dev/rnode" "rnsd")).next
    (.revalidateIntent (onPorts 1 0) ⟨"/dev/rnode", "/dev/rnode", "rnsd", 0, 1⟩)).next
    (.claimStart plainPaths "/dev/gps" "gps" false none)

/-- A claim that raises does more than add keys to an intent: the radio, back on
    the first port, is refreshed to its identity there, whose keys it has already. -/
theorem failed_claim_replaces_identity : ∃ s e a i t t', system.Reachable s ∧ a.enabled s ∧
    s.Raises e a ∧ s.registry.intents.get? i = some t ∧
      (s.next a).registry.intents.get? i = some t' ∧ t'.claimKeys ⊆ t.claimKeys ∧
        t' ≠ { t with claimKeys := t'.claimKeys } := by
  have hnext : ∀ s a, system.Reachable s → a.enabled s → system.Reachable (s.next a) :=
    fun s a h he => h.step ⟨he, rfl⟩
  have hreach : system.Reachable afterReplug :=
    hnext _ (.claimStart plainPaths "/dev/gps" "gps" false none)
      (hnext _ (.revalidateIntent (onPorts 1 0) ⟨"/dev/rnode", "/dev/rnode", "rnsd", 0, 1⟩)
        (hnext _ (.reserveExternalIntent plainPaths (onPorts 0 1) (onPorts 0 1) "/dev/rnode" "rnsd")
          (.init ⟨0, rfl⟩) trivial) trivial) trivial
  have hrun : afterReplug.registry.intents.get? 1 = some ⟨1, "rnsd", "/dev/rnode", "/dev/rnode",
      some ⟨"/dev/rnode", "/dev/ttyUSB1", 188, 1, none⟩,
      [.path "/dev/ttyUSB0", .device 188 0, .path "/dev/ttyUSB1", .device 188 1]⟩ := by
    decide +kernel
  have hafter : (afterReplug.next (.claimFinish (onPorts 0 1) (onPorts 0 1)
      gpsCall)).registry.intents.get? 1 = some ⟨1, "rnsd", "/dev/rnode", "/dev/rnode",
      some ⟨"/dev/rnode", "/dev/ttyUSB0", 188, 0, none⟩,
      [.path "/dev/ttyUSB1", .device 188 1, .path "/dev/ttyUSB0", .device 188 0]⟩ := by
    decide +kernel
  refine ⟨afterReplug, .busy "/dev/gps" ["rnsd"]
    (some ⟨"/dev/gps", "/dev/ttyUSB1", 188, 1, none⟩) true,
    .claimFinish (onPorts 0 1) (onPorts 0 1) gpsCall, 1, _, _, hreach, ?_, ?_, hrun, hafter, ?_, ?_⟩
  · change gpsCall ∈ afterReplug.inflight
    decide +kernel
  · change (afterReplug.registry.claimFinish (onPorts 0 1) (onPorts 0 1) gpsCall).1 = .error _
    decide +kernel
  · decide
  · decide

end ReticulumPi.Serial
