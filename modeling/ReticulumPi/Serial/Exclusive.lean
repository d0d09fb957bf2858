import ReticulumPi.Lib.Fallible
import ReticulumPi.Serial.Registry

/-!
# Serial-device exclusivity

What the tables of a registry keep, whatever its callers do and however the
paths resolve: the claims, their groups and the key index agree
(`ClaimTables`), so do the intents and their indexes (`IntentTables`), and an
intent only gains keys while it lives (`Grows`). Claims that share a key
therefore share a group, hence a binding; the group of an external claim has
no second member; and a claim is granted away from every live intent.
-/

namespace ReticulumPi.Serial

open List

namespace Registry

open Fallible

variable {r r' : Registry}

/-! ## What the tables keep -/

/-- The claims, their groups and the key index agree, and a key in use belongs
    to one group. -/
structure ClaimTables (r : Registry) : Prop where
  claim_le : ∀ i c, r.claims.get? i = some c → i ≤ r.nextClaimId
  group_le : ∀ γ g, r.groups.get? γ = some g → γ ≤ r.nextGroupId
  claim_group : ∀ i c, r.claims.get? i = some c → ∃ g, r.groups.get? c.groupId = some g ∧
    i ∈ g.claimIds ∧ g.identity.binding = c.identity.binding ∧ g.external = c.external
  group_claim : ∀ γ g, r.groups.get? γ = some g → ∀ i ∈ g.claimIds,
    ∃ c, r.claims.get? i = some c ∧ c.groupId = γ
  external_single : ∀ γ g, r.groups.get? γ = some g → g.external = true →
    ∀ i ∈ g.claimIds, ∀ j ∈ g.claimIds, i = j
  indexed : ∀ k i, i ∈ r.claimsByKey.ids k ↔
    ∃ c, r.claims.get? i = some c ∧ k ∈ c.identity.claimKeys
  shared_key : ∀ i c j d k, r.claims.get? i = some c → r.claims.get? j = some d →
    k ∈ c.identity.claimKeys → k ∈ d.identity.claimKeys → c.groupId = d.groupId

/-- The intents and their indexes agree. -/
structure IntentTables (r : Registry) : Prop where
  intent_id : ∀ i t, r.intents.get? i = some t → t.intentId = i
  intent_le : ∀ i t, r.intents.get? i = some t → i ≤ r.nextIntentId
  indexed_path : ∀ p i, i ∈ r.intentsByPath.ids p ↔
    ∃ t, r.intents.get? i = some t ∧ t.normalizedPath = p
  indexed_key : ∀ k i, i ∈ r.intentsByKey.ids k ↔
    ∃ t, r.intents.get? i = some t ∧ k ∈ t.claimKeys

/-- An intent of `r'` that `r` could already name was one of `r`, with the
    same path and no more keys: identifiers are not reused, and keys accumulate. -/
def Grows (r r' : Registry) : Prop :=
  r.nextIntentId ≤ r'.nextIntentId ∧
    ∀ i t', i ≤ r.nextIntentId → r'.intents.get? i = some t' →
      ∃ t, r.intents.get? i = some t ∧ t.normalizedPath = t'.normalizedPath ∧
        t.claimKeys ⊆ t'.claimKeys

theorem Grows.refl (r : Registry) : r.Grows r :=
  ⟨le_rfl, fun _ t' _ h => ⟨t', h, rfl, Subset.refl _⟩⟩

theorem Grows.trans {r₁ r₂ r₃ : Registry} (h : r₁.Grows r₂) (h' : r₂.Grows r₃) : r₁.Grows r₃ := by
  refine ⟨h.1.trans h'.1, fun i t₃ hi ht₃ => ?_⟩
  obtain ⟨t₂, ht₂, hp, hk⟩ := h'.2 i t₃ (hi.trans h.1) ht₃
  obtain ⟨t₁, ht₁, hp', hk'⟩ := h.2 i t₂ hi ht₂
  exact ⟨t₁, ht₁, hp'.trans hp, Subset.trans hk' hk⟩

theorem claimTables_new (nonce : ℕ) : (new nonce).ClaimTables where
  claim_le _ _ h := by simp [new] at h
  group_le _ _ h := by simp [new] at h
  claim_group _ _ h := by simp [new] at h
  group_claim _ _ h := by simp [new] at h
  external_single _ _ h := by simp [new] at h
  indexed k i := by simp [new]
  shared_key _ _ _ _ _ h := by simp [new] at h

theorem intentTables_new (nonce : ℕ) : (new nonce).IntentTables where
  intent_id _ _ h := by simp [new] at h
  intent_le _ _ h := by simp [new] at h
  indexed_path p i := by simp [new]
  indexed_key k i := by simp [new]

/-- The claims' tables only depend on the claims, their groups, their index and counters. -/
theorem ClaimTables.congr (h : r.ClaimTables) (hc : r'.claims = r.claims)
    (hg : r'.groups = r.groups) (hk : r'.claimsByKey = r.claimsByKey)
    (hn : r'.nextClaimId = r.nextClaimId) (hm : r'.nextGroupId = r.nextGroupId) :
    r'.ClaimTables where
  claim_le := by rw [hc, hn]; exact h.claim_le
  group_le := by rw [hg, hm]; exact h.group_le
  claim_group := by rw [hc, hg]; exact h.claim_group
  group_claim := by rw [hc, hg]; exact h.group_claim
  external_single := by rw [hg]; exact h.external_single
  indexed := by rw [hc, hk]; exact h.indexed
  shared_key := by rw [hc]; exact h.shared_key

/-- The intents' tables only depend on the intents, their indexes and counter. -/
theorem IntentTables.congr (h : r.IntentTables) (ht : r'.intents = r.intents)
    (hp : r'.intentsByPath = r.intentsByPath) (hk : r'.intentsByKey = r.intentsByKey)
    (hn : r'.nextIntentId = r.nextIntentId) : r'.IntentTables where
  intent_id := by rw [ht]; exact h.intent_id
  intent_le := by rw [ht, hn]; exact h.intent_le
  indexed_path := by rw [ht, hp]; exact h.indexed_path
  indexed_key := by rw [ht, hk]; exact h.indexed_key

theorem Grows.of_eq (ht : r'.intents = r.intents) (hn : r'.nextIntentId = r.nextIntentId) :
    r.Grows r' := by
  refine ⟨hn.ge, fun i t' _ h => ⟨t', ?_, rfl, Subset.refl _⟩⟩
  rwa [ht] at h

/-! ## Collisions -/

theorem recordsOf_eq_nil {α : Type} {table : Dict ℕ α} {ids : Finset ℕ}
    (h : recordsOf table ids = .ok []) : ids = ∅ := by
  refine Finset.eq_empty_of_forall_notMem fun i hi => ?_
  obtain ⟨_, hnil, _⟩ := mapM_ok h i ((Finset.mem_sort _).2 hi)
  exact not_mem_nil hnil

variable {i : ℕ}

theorem mem_recordsOf {α : Type} {table : Dict ℕ α} {ids : Finset ℕ} {records : List α}
    (h : recordsOf table ids = .ok records) (hi : i ∈ ids) :
    ∃ record ∈ records, table.get? i = some record := by
  obtain ⟨record, hmem, hget⟩ := mapM_ok h i ((Finset.mem_sort _).2 hi)
  refine ⟨record, hmem, ?_⟩
  cases ht : table.get? i with
  | none => rw [ht] at hget; cases hget
  | some _ => rw [ht] at hget; cases hget; rfl

/-- No collision under a path: no live intent has it. -/
theorem IntentTables.path_free (h : r.IntentTables) {p : String}
    (hr : r.intentRecordsForPathLocked p = .ok []) {t : IntentRecord}
    (ht : r.intents.get? i = some t) : t.normalizedPath ≠ p := fun hp => by
  have := (h.indexed_path p i).2 ⟨t, ht, hp⟩
  rw [recordsOf_eq_nil hr] at this
  exact Finset.notMem_empty i this

variable {identity : SerialDeviceIdentity}

/-- No collision of an identity with the intents: its keys are none of a live intent's. -/
theorem IntentTables.key_free (h : r.IntentTables)
    (hr : r.intentRecordsForIdentityLocked identity = .ok []) {t : IntentRecord}
    (ht : r.intents.get? i = some t) {k : ClaimKey} (hk : k ∈ identity.claimKeys) :
    k ∉ t.claimKeys := fun hkt => by
  have := Index.mem_idsOf.2 ⟨k, hk, (h.indexed_key k i).2 ⟨t, ht, hkt⟩⟩
  rw [recordsOf_eq_nil hr] at this
  exact Finset.notMem_empty i this

/-- The colliding claims of an identity are among the claims found. -/
theorem ClaimTables.mem_colliding (h : r.ClaimTables)
    {colliding : List ClaimRecord} (hr : r.claimRecordsForIdentityLocked identity = .ok colliding)
    {c : ClaimRecord} (hc : r.claims.get? i = some c) {k : ClaimKey}
    (hk : k ∈ identity.claimKeys) (hkc : k ∈ c.identity.claimKeys) : c ∈ colliding := by
  obtain ⟨record, hmem, hget⟩ :=
    mem_recordsOf hr (Index.mem_idsOf.2 ⟨k, hk, (h.indexed k i).2 ⟨c, hc, hkc⟩⟩)
  rw [hc] at hget
  exact Option.some.inj hget ▸ hmem

/-! ## Intents -/

/-- All the tables agree. -/
structure Tables (r : Registry) : Prop where
  claims : r.ClaimTables
  intents : r.IntentTables

/-- What leads from `r` to `r'` keeps the tables, and the intents grow. -/
def Keeps (r r' : Registry) : Prop := r.Tables → r'.Tables ∧ r.Grows r'

theorem Keeps.refl (r : Registry) : r.Keeps r := fun h => ⟨h, .refl r⟩

theorem Keeps.trans {r₁ r₂ r₃ : Registry} (h : r₁.Keeps r₂) (h' : r₂.Keeps r₃) : r₁.Keeps r₃ :=
  fun ht => ⟨(h' (h ht).1).1, (h ht).2.trans (h' (h ht).1).2⟩

theorem keeps_updateIntent {record : IntentRecord} (ht : r.intents.get? i = some record)
    (current : SerialDeviceIdentity) : r.Keeps (r.updateIntent record current) := by
  intro h
  have hid : record.intentId = i := h.intents.intent_id i record ht
  -- Only the record of `i` changes, to one with the same path and more keys.
  have hget : ∀ j, (r.updateIntent record current).intents.get? j =
      if j = i then some (record.updated current) else r.intents.get? j := fun j => by
    rw [updateIntent, Dict.get?_set, hid]
  refine ⟨⟨h.claims.congr rfl rfl rfl rfl rfl, ⟨?_, ?_, ?_, ?_⟩⟩, le_rfl, ?_⟩
  · intro j t hj
    rw [hget] at hj
    split_ifs at hj with hji
    · cases hj
      exact hid.trans hji.symm
    · exact h.intents.intent_id j t hj
  · intro j t hj
    rw [hget] at hj
    split_ifs at hj with hji
    · exact hji ▸ h.intents.intent_le i record ht
    · exact h.intents.intent_le j t hj
  · intro p j
    refine (h.intents.indexed_path p j).trans ?_
    rw [hget]
    split_ifs with hji
    · simp [hji, ht, IntentRecord.updated]
    · rfl
  · intro k j
    rw [show (r.updateIntent record current).intentsByKey =
      r.intentsByKey.add current.claimKeys i by rw [updateIntent, hid], Index.mem_ids_add,
      h.intents.indexed_key, hget]
    split_ifs with hji
    · simp [hji, ht, IntentRecord.updated, or_comm]
    · simp [hji]
  · intro j t' _ hj
    rw [hget] at hj
    split_ifs at hj with hji
    · cases hj
      exact ⟨record, hji ▸ ht, rfl, fun _ hk => mem_union_left hk _⟩
    · exact ⟨t', hj, rfl, Subset.refl _⟩

theorem keeps_refreshIntents (fs : Resolver) (ids : List ℕ) (r : Registry) :
    r.Keeps (refreshIntents fs ids r).2 := by
  induction ids generalizing r with
  | nil => exact .refl r
  | cons i ids ih =>
    unfold refreshIntents
    split
    · exact ih r
    · next record hrecord =>
      split
      · exact ih r
      · exact .refl r
      · split
        · exact ih r
        · exact (keeps_updateIntent hrecord _).trans (ih _)

theorem keeps_refreshIntentsLocked (fs : Resolver) (r : Registry) :
    r.Keeps (r.refreshIntentsLocked fs).2 := keeps_refreshIntents fs _ r

theorem keeps_addIntent (r : Registry) (owner configured normalized : String)
    (identity : Option SerialDeviceIdentity) :
    r.Keeps (r.addIntent owner configured normalized identity) := by
  intro h
  set keys := (identity.map (·.claimKeys)).getD [] with hkeys
  set record : IntentRecord :=
    ⟨r.nextIntentId + 1, owner, configured, normalized, identity, keys⟩ with hrecord
  have hget : ∀ j, (r.addIntent owner configured normalized identity).intents.get? j =
      if j = r.nextIntentId + 1 then some record else r.intents.get? j := fun j => by
    rw [addIntent, Dict.get?_set]
  -- The new identifier is not one of the table's.
  have hnew : r.intents.get? (r.nextIntentId + 1) = none :=
    Option.eq_none_iff_forall_ne_some.2 fun t ht => by
      have := h.intents.intent_le _ t ht
      omega
  refine ⟨⟨h.claims.congr rfl rfl rfl rfl rfl, ⟨?_, ?_, ?_, ?_⟩⟩, Nat.le_succ _, ?_⟩
  · intro j t hj
    rw [hget] at hj
    split_ifs at hj with hji
    · cases hj
      exact hji.symm
    · exact h.intents.intent_id j t hj
  · intro j t hj
    rw [hget] at hj
    split_ifs at hj with hji
    · exact hji.le
    · exact (h.intents.intent_le j t hj).trans (Nat.le_succ _)
  · intro p j
    rw [show (r.addIntent owner configured normalized identity).intentsByPath =
      r.intentsByPath.add [normalized] (r.nextIntentId + 1) from rfl, Index.mem_ids_add,
      h.intents.indexed_path, hget]
    split_ifs with hji
    · simp [hji, hnew, hrecord, eq_comm]
    · simp [hji]
  · intro k j
    rw [show (r.addIntent owner configured normalized identity).intentsByKey =
      r.intentsByKey.add keys (r.nextIntentId + 1) from rfl, Index.mem_ids_add,
      h.intents.indexed_key, hget]
    split_ifs with hji
    · simp [hji, hnew, hrecord]
    · simp [hji]
  · intro j t' hle hj
    rw [hget, if_neg (by omega)] at hj
    exact ⟨t', hj, rfl, Subset.refl _⟩

theorem keeps_reserveExternalIntent (os : OsPath) (fs fs' : Resolver) (configured owner : String)
    (r : Registry) : r.Keeps (r.reserveExternalIntent os fs fs' configured owner).2 := by
  have hreserve : ∀ owner normalized identity,
      r.Keeps (reserveExternalIntent.reserve fs' configured r owner normalized identity).2 := by
    intro owner normalized identity
    have hrefresh := keeps_refreshIntentsLocked fs' r
    unfold reserveExternalIntent.reserve
    split
    · next h => rwa [h] at hrefresh
    · next r' h =>
      rw [h] at hrefresh
      split
      · exact hrefresh
      · exact hrefresh.trans (keeps_addIntent r' owner configured normalized identity)
  unfold reserveExternalIntent
  split
  · exact .refl r
  · exact .refl r
  · split
    · exact hreserve _ _ _
    · exact .refl r
    · exact hreserve _ _ _

theorem activeIntentFor_ok {lease : IntentLease} {record : IntentRecord}
    (h : r.activeIntentFor lease = .ok record) : r.intents.get? lease.intentId = some record := by
  unfold activeIntentFor at h
  split_ifs at h
  split at h
  · cases h
  · next hget =>
    split_ifs at h
    cases h
    exact hget

theorem keeps_revalidateIntent (fs : Resolver) (lease : IntentLease) (r : Registry) :
    r.Keeps (r.revalidateIntent fs lease).2 := by
  unfold revalidateIntent
  split
  · exact .refl r
  · next record hrecord =>
    split
    · exact .refl r
    · exact .refl r
    · split
      · exact .refl r
      · exact keeps_updateIntent (activeIntentFor_ok hrecord) _

theorem keeps_releaseIntent (intentId : ℕ) (r : Registry) :
    r.Keeps (r.releaseIntent intentId) := by
  unfold releaseIntent
  split
  · exact .refl r
  · next record hrecord =>
    intro h
    refine ⟨⟨h.claims.congr rfl rfl rfl rfl rfl, ⟨?_, ?_, ?_, ?_⟩⟩, le_rfl, ?_⟩
    · intro j t hj
      rw [Dict.get?_erase] at hj
      split_ifs at hj
      exact h.intents.intent_id j t hj
    · intro j t hj
      rw [Dict.get?_erase] at hj
      split_ifs at hj
      exact h.intents.intent_le j t hj
    · intro p j
      rw [Index.mem_ids_drop, h.intents.indexed_path, Dict.get?_erase]
      split_ifs with hj
      · simp [hj, hrecord, eq_comm]
      · simp [hj]
    · intro k j
      rw [Index.mem_ids_drop, h.intents.indexed_key, Dict.get?_erase]
      split_ifs with hj
      · simp [hj, hrecord]
      · simp [hj]
    · intro j t' _ hj
      rw [Dict.get?_erase] at hj
      split_ifs at hj
      exact ⟨t', hj, rfl, Subset.refl _⟩

/-! ## Claims -/

/-- The group `γ`, with the record `g`, is one that a claim of `identity` may
    enter: a new one if no claim has a key of `identity`, else the group of all
    the claims that have one, bound to the same endpoint and not external. -/
structure Enters (r : Registry) (identity : SerialDeviceIdentity) (external : Bool) (γ : ℕ)
    (g : ShareGroup) : Prop where
  shared_key : ∀ i c k, r.claims.get? i = some c → k ∈ identity.claimKeys →
    k ∈ c.identity.claimKeys → c.groupId = γ
  binding : g.identity.binding = identity.binding
  external_eq : g.external = external
  single : g.external = true → g.claimIds = ∅
  group_claim : ∀ i ∈ g.claimIds, ∃ c, r.claims.get? i = some c ∧ c.groupId = γ
  claim_group : ∀ i c, r.claims.get? i = some c → c.groupId = γ →
    i ∈ g.claimIds ∧ g.identity.binding = c.identity.binding ∧ g.external = c.external

variable {g : ShareGroup}

theorem validateShareToken_ok {token : ShareToken} {colliding : List ClaimRecord} {γ : ℕ}
    (h : r.validateShareToken token identity colliding = .ok (γ, g)) :
    r.groups.get? γ = some g ∧ g.external = false ∧ identity.binding = g.identity.binding ∧
      ∀ c ∈ colliding, c.groupId = γ := by
  unfold validateShareToken at h
  split at h
  · cases h
  · next group hgroup =>
    split_ifs at h with hbad
    cases h
    simp only [not_or, not_not, List.any_eq_true, decide_eq_true_eq, not_exists, not_and,
      SerialDeviceIdentity.isSameEndpoint] at hbad
    obtain ⟨_, _, _, hext, hsame, _, hall⟩ := hbad
    exact ⟨hgroup, by simpa using hext, hsame, fun c hc => by simpa using hall c hc⟩

/-- What the checks under the lock establish. -/
theorem enterGroup_ok {c : Call} {γ : ℕ} (h : r.enterGroup c identity = .ok (γ, g, r')) :
    r.intentRecordsForPathLocked c.normalized = .ok [] ∧
      r.intentRecordsForIdentityLocked identity = .ok [] ∧
      ∃ colliding, r.claimRecordsForIdentityLocked identity = .ok colliding ∧
        ((colliding = [] ∧ (γ, g, r') = r.newGroup identity c.external) ∨
          (c.external = false ∧ r' = r ∧ r.groups.get? γ = some g ∧ g.external = false ∧
            identity.binding = g.identity.binding ∧ ∀ d ∈ colliding, d.groupId = γ)) := by
  obtain ⟨paths, hpaths, h⟩ := bind_ok h
  obtain ⟨hpnil, h⟩ := guard_ok h
  obtain ⟨intents, hintents, h⟩ := bind_ok h
  obtain ⟨hinil, h⟩ := guard_ok h
  obtain ⟨colliding, hcolliding, h⟩ := bind_ok h
  rw [not_not] at hpnil hinil
  refine ⟨hpnil ▸ hpaths, hinil ▸ hintents, colliding, hcolliding, ?_⟩
  split at h
  · obtain ⟨hnil, h⟩ := guard_ok h
    exact .inl ⟨not_not.1 hnil, (Except.ok.inj h).symm⟩
  · obtain ⟨hext, h⟩ := guard_ok h
    obtain ⟨⟨γ', g'⟩, htoken, h⟩ := bind_ok h
    cases h
    obtain ⟨hget, hgext, hsame, hall⟩ := validateShareToken_ok htoken
    exact .inr ⟨by simpa using hext, rfl, hget, hgext, hsame, hall⟩

/-- A claim let in enters its group, and letting it in only adds that group. -/
theorem enterGroup_enters (ht : r.Tables) {c : Call} {γ : ℕ}
    (h : r.enterGroup c identity = .ok (γ, g, r')) :
    r.Enters identity c.external γ g ∧ γ ≤ r'.nextGroupId ∧ r.nextGroupId ≤ r'.nextGroupId ∧
      (∀ δ, δ ≠ γ → r'.groups.get? δ = r.groups.get? δ) ∧
      r' = { r with nextNonce := r'.nextNonce, nextGroupId := r'.nextGroupId,
                    groups := r'.groups } := by
  obtain ⟨_, _, colliding, hcolliding, ⟨hnil, hnew⟩ | ⟨hext, rfl, hget, hgext, hsame, hall⟩⟩ :=
    enterGroup_ok h
  · -- A new group: no claim has a key of the identity, nor the new number.
    simp only [newGroup, Prod.mk.injEq] at hnew
    obtain ⟨rfl, rfl, rfl⟩ := hnew
    have hfresh : ∀ i c, r.claims.get? i = some c → c.groupId ≠ r.nextGroupId + 1 := by
      intro i c hc hγ
      obtain ⟨g, hg, _⟩ := ht.claims.claim_group i c hc
      have := ht.claims.group_le _ _ hg
      omega
    refine ⟨⟨fun i c k hc hk hkc => ?_, rfl, rfl, fun _ => rfl, by simp,
      fun i c hc hγ => absurd hγ (hfresh i c hc)⟩, le_rfl, Nat.le_succ _,
      fun δ hδ => Dict.get?_set_of_ne hδ, rfl⟩
    exact absurd (hnil ▸ ht.claims.mem_colliding hcolliding hc hk hkc) not_mem_nil
  · -- A group entered with a token: every colliding claim is in it.
    refine ⟨⟨fun i c k hc hk hkc => hall c (ht.claims.mem_colliding hcolliding hc hk hkc),
      hsame.symm, hgext.trans hext.symm, fun hg => ?_, ht.claims.group_claim γ g hget,
      fun i c hc hγ => ?_⟩, ht.claims.group_le γ g hget, le_rfl, fun _ _ => rfl, rfl⟩
    · rw [hgext] at hg
      cases hg
    · obtain ⟨g', hg', hi, hb, he⟩ := ht.claims.claim_group i c hc
      rw [hγ, hget] at hg'
      cases hg'
      exact ⟨hi, hb, he⟩

theorem keeps_addClaim {c : Call} {γ : ℕ} (h : r.enterGroup c identity = .ok (γ, g, r')) :
    r.Keeps (r'.addClaim γ g c.owner identity c.external) := by
  intro ht
  obtain ⟨henter, hγ, hle, hgroups, hr'⟩ := enterGroup_enters ht h
  have hclaims : r'.claims = r.claims := by rw [hr']
  have hnext : r'.nextClaimId = r.nextClaimId := by rw [hr']
  set id := r.nextClaimId + 1 with hid
  set record : ClaimRecord := ⟨id, γ, c.owner, identity, c.external⟩ with hrecord
  set s := r'.addClaim γ g c.owner identity c.external with hs
  have hget : ∀ j, s.claims.get? j = if j = id then some record else r.claims.get? j := fun j => by
    rw [hs, addClaim, Dict.get?_set, hnext, hclaims]
  have hgroup : ∀ δ, s.groups.get? δ =
      if δ = γ then some { g with claimIds := insert id g.claimIds } else r.groups.get? δ := by
    intro δ
    rw [hs, addClaim, Dict.get?_set, hnext]
    split_ifs with hδ
    · rfl
    · exact hgroups δ hδ
  have hnew : ∀ i c, r.claims.get? i = some c → i ≠ id := fun i c hc hi => by
    have := ht.claims.claim_le i c hc
    omega
  refine ⟨⟨⟨?_, ?_, ?_, ?_, ?_, ?_, ?_⟩, ht.intents.congr ?_ ?_ ?_ ?_⟩, .of_eq ?_ ?_⟩
  · intro j d hj
    rw [hget] at hj
    rw [show s.nextClaimId = id by rw [hs, addClaim, hnext]]
    split_ifs at hj with hji
    · exact hji.le
    · exact (ht.claims.claim_le j d hj).trans (Nat.le_succ _)
  · intro δ d hδ
    rw [hgroup] at hδ
    rw [show s.nextGroupId = r'.nextGroupId from rfl]
    split_ifs at hδ with hδγ
    · exact hδγ ▸ hγ
    · exact (ht.claims.group_le δ d hδ).trans hle
  · intro j d hj
    rw [hget] at hj
    split_ifs at hj with hji
    · cases hj
      exact ⟨{ g with claimIds := insert id g.claimIds }, by rw [hgroup, if_pos rfl],
        hji ▸ Finset.mem_insert_self _ _, henter.binding, henter.external_eq⟩
    · obtain ⟨g', hg', hmem, hb, he⟩ := ht.claims.claim_group j d hj
      by_cases hd : d.groupId = γ
      · obtain ⟨hmem', hb', he'⟩ := henter.claim_group j d hj hd
        exact ⟨{ g with claimIds := insert id g.claimIds }, by rw [hgroup, if_pos hd],
          Finset.mem_insert_of_mem hmem', hb', he'⟩
      · exact ⟨g', by rw [hgroup, if_neg hd]; exact hg', hmem, hb, he⟩
  · intro δ d hδ j hj
    rw [hgroup] at hδ
    rw [hget]
    split_ifs at hδ with hδγ
    · cases hδ
      rcases Finset.mem_insert.1 hj with rfl | hj
      · exact ⟨record, if_pos rfl, hδγ.symm⟩
      · obtain ⟨e, he, heγ⟩ := henter.group_claim j hj
        exact ⟨e, by rw [if_neg (hnew j e he)]; exact he, heγ.trans hδγ.symm⟩
    · obtain ⟨e, he, heδ⟩ := ht.claims.group_claim δ d hδ j hj
      exact ⟨e, by rw [if_neg (hnew j e he)]; exact he, heδ⟩
  · intro δ d hδ hext i hi j hj
    rw [hgroup] at hδ
    split_ifs at hδ with hδγ
    · cases hδ
      rw [henter.single hext] at hi hj
      rw [LawfulSingleton.insert_empty_eq, Finset.mem_singleton] at hi hj
      exact hi.trans hj.symm
    · exact ht.claims.external_single δ d hδ hext i hi j hj
  · intro k j
    rw [show s.claimsByKey = r.claimsByKey.add identity.claimKeys id by
      rw [hs, addClaim, hnext, hr'], Index.mem_ids_add, ht.claims.indexed, hget]
    split_ifs with hji
    · constructor
      · rintro (⟨_, hk⟩ | ⟨e, he, _⟩)
        · exact ⟨record, rfl, hk⟩
        · exact absurd hji (hnew j e he)
      · rintro ⟨e, he, hk⟩
        cases he
        exact .inl ⟨hji, hk⟩
    · simp [hji]
  · intro i d j e k hi hj hkd hke
    rw [hget] at hi hj
    split_ifs at hi with hi' <;> split_ifs at hj with hj'
    · cases hi
      cases hj
      rfl
    · cases hi
      exact (henter.shared_key j e k hj hkd hke).symm
    · cases hj
      exact henter.shared_key i d k hi hke hkd
    · exact ht.claims.shared_key i d j e k hi hj hkd hke
  all_goals rw [hs, addClaim, hr']

theorem keeps_claimLocked (fs : Resolver) (c : Call) (identity : SerialDeviceIdentity)
    (r : Registry) : r.Keeps (r.claimLocked fs c identity).2 := by
  have hrefresh := keeps_refreshIntentsLocked fs r
  unfold claimLocked
  split
  · next h => rwa [h] at hrefresh
  · next r₁ h =>
    rw [h] at hrefresh
    split
    · exact hrefresh
    · next hgroup => exact hrefresh.trans (keeps_addClaim hgroup)

theorem keeps_claimFinish (fs fs' : Resolver) (c : Call) (r : Registry) :
    r.Keeps (r.claimFinish fs fs' c).2 := by
  unfold claimFinish
  split
  · exact .refl r
  · exact keeps_claimLocked fs' c _ r

theorem keeps_release (claimId : ℕ) (r : Registry) : r.Keeps (r.release claimId) := by
  unfold release
  split
  · exact .refl r
  · next record hrecord =>
    intro ht
    obtain ⟨g, hg, hmem, hb, he⟩ := ht.claims.claim_group claimId record hrecord
    simp only [hg]
    set s : Registry := { r with
      claims := r.claims.erase claimId
      claimsByKey := r.claimsByKey.drop record.identity.claimKeys claimId
      groups := if g.claimIds.erase claimId = ∅ then r.groups.erase record.groupId
        else r.groups.set record.groupId { g with claimIds := g.claimIds.erase claimId } } with hs
    have hget : ∀ j, s.claims.get? j = if j = claimId then none else r.claims.get? j :=
      fun j => Dict.get?_erase
    -- The group of the claim loses it, or goes with it.
    have hgroup : ∀ δ d, s.groups.get? δ = some d →
        (δ = record.groupId ∧ d = { g with claimIds := g.claimIds.erase claimId }) ∨
          (δ ≠ record.groupId ∧ r.groups.get? δ = some d) := by
      intro δ d hδ
      by_cases hempty : g.claimIds.erase claimId = ∅
      · rw [show s.groups = r.groups.erase record.groupId by rw [hs]; simp [hempty],
          Dict.get?_erase] at hδ
        split_ifs at hδ with hδγ
        exact .inr ⟨hδγ, hδ⟩
      · rw [show s.groups = r.groups.set record.groupId
          { g with claimIds := g.claimIds.erase claimId } by rw [hs]; simp [hempty],
          Dict.get?_set] at hδ
        split_ifs at hδ with hδγ
        · exact .inl ⟨hδγ, (Option.some.inj hδ).symm⟩
        · exact .inr ⟨hδγ, hδ⟩
    -- A claim left behind keeps its group: a member other than `claimId` is in it.
    have hkeep : ∀ j d, j ≠ claimId → r.claims.get? j = some d → ∃ g', s.groups.get? d.groupId =
        some g' ∧ j ∈ g'.claimIds ∧ g'.identity.binding = d.identity.binding ∧
          g'.external = d.external := by
      intro j d hj hd
      obtain ⟨g', hg', hmem', hb', he'⟩ := ht.claims.claim_group j d hd
      by_cases hδ : d.groupId = record.groupId
      · rw [hδ, hg] at hg'
        cases hg'
        have hj' : j ∈ g.claimIds.erase claimId := Finset.mem_erase.2 ⟨hj, hmem'⟩
        refine ⟨{ g with claimIds := g.claimIds.erase claimId }, ?_, hj', hb', he'⟩
        rw [hδ, hs]
        simp [Finset.ne_empty_of_mem hj']
      · refine ⟨g', ?_, hmem', hb', he'⟩
        rw [hs]
        simp only
        split_ifs
        · rwa [Dict.get?_erase_of_ne hδ]
        · rwa [Dict.get?_set_of_ne hδ]
    refine ⟨⟨⟨?_, ?_, ?_, ?_, ?_, ?_, ?_⟩, ht.intents.congr rfl rfl rfl rfl⟩, .of_eq rfl rfl⟩
    · intro j d hj
      rw [hget] at hj
      split_ifs at hj
      exact ht.claims.claim_le j d hj
    · intro δ d hδ
      rcases hgroup δ d hδ with ⟨rfl, _⟩ | ⟨_, hd⟩
      · exact ht.claims.group_le _ g hg
      · exact ht.claims.group_le δ d hd
    · intro j d hj
      rw [hget] at hj
      split_ifs at hj with hji
      exact hkeep j d hji hj
    · intro δ d hδ j hj
      rw [hget]
      rcases hgroup δ d hδ with ⟨rfl, rfl⟩ | ⟨hne, hd⟩
      · obtain ⟨hji, hj⟩ := Finset.mem_erase.1 hj
        rw [if_neg hji]
        exact ht.claims.group_claim _ g hg j hj
      · obtain ⟨e, he, heδ⟩ := ht.claims.group_claim δ d hd j hj
        refine ⟨e, ?_, heδ⟩
        rw [if_neg, he]
        rintro rfl
        rw [hrecord] at he
        cases he
        exact hne heδ.symm
    · intro δ d hδ hext i hi j hj
      rcases hgroup δ d hδ with ⟨rfl, rfl⟩ | ⟨_, hd⟩
      · exact ht.claims.external_single _ g hg hext i (Finset.mem_of_mem_erase hi) j
          (Finset.mem_of_mem_erase hj)
      · exact ht.claims.external_single δ d hd hext i hi j hj
    · intro k j
      rw [show s.claimsByKey = r.claimsByKey.drop record.identity.claimKeys claimId from rfl,
        Index.mem_ids_drop, ht.claims.indexed, hget]
      split_ifs with hji
      · simp [hji, hrecord]
      · simp [hji]
    · intro i d j e k hi hj
      rw [hget] at hi hj
      split_ifs at hi
      split_ifs at hj
      exact ht.claims.shared_key i d j e k hi hj

/-! ## Exclusivity -/

/-- Claims that share a key are in one group, a group is bound to one endpoint,
    and an external claim is alone in its group. -/
structure Exclusive (r : Registry) : Prop where
  shared_key : ∀ i c j d k, r.claims.get? i = some c → r.claims.get? j = some d →
    k ∈ c.identity.claimKeys → k ∈ d.identity.claimKeys → c.groupId = d.groupId
  same_binding : ∀ i c j d, r.claims.get? i = some c → r.claims.get? j = some d →
    c.groupId = d.groupId → c.identity.binding = d.identity.binding
  external_alone : ∀ i c j d, r.claims.get? i = some c → r.claims.get? j = some d →
    c.external = true → d.groupId = c.groupId → j = i

theorem ClaimTables.exclusive (h : r.ClaimTables) : r.Exclusive where
  shared_key := h.shared_key
  same_binding i c j d hc hd hγ := by
    obtain ⟨g, hg, _, hb, _⟩ := h.claim_group i c hc
    obtain ⟨g', hg', _, hb', _⟩ := h.claim_group j d hd
    rw [← hγ, hg] at hg'
    cases hg'
    exact hb.symm.trans hb'
  external_alone i c j d hc hd hext hγ := by
    obtain ⟨g, hg, hi, _, he⟩ := h.claim_group i c hc
    obtain ⟨g', hg', hj, _, _⟩ := h.claim_group j d hd
    rw [hγ, hg] at hg'
    cases hg'
    exact h.external_single _ g hg (he.trans hext) j hj i hi

/-- A claim that is granted is away from every intent left live: from its path
    and from its keys. -/
theorem claimFinish_ok {fs fs' : Resolver} {c : Call} {lease : Lease} (ht : r.Tables)
    (h : (r.claimFinish fs fs' c).1 = .ok lease) {t : IntentRecord}
    (hi : (r.claimFinish fs fs' c).2.intents.get? i = some t) :
    t.normalizedPath ≠ c.normalized ∧ ∀ k ∈ lease.identity.claimKeys, k ∉ t.claimKeys := by
  unfold claimFinish at h hi
  split at h
  · cases h
  · next identity hresolve =>
    simp only [hresolve] at hi
    have hrefresh := keeps_refreshIntentsLocked fs' r ht
    unfold claimLocked at h hi
    split at h
    · cases h
    · next r₁ hr₁ =>
      rw [hr₁] at hrefresh
      simp only [hr₁] at hi
      split at h
      · cases h
      · next γ g r₂ hgroup =>
        simp only [hgroup] at hi
        cases h
        obtain ⟨hpath, hkeys, _⟩ := enterGroup_ok hgroup
        obtain ⟨_, _, _, _, hr₂⟩ := enterGroup_enters hrefresh.1 hgroup
        have hi' : r₁.intents.get? i = some t := by
          rwa [addClaim, hr₂] at hi
        exact ⟨hrefresh.1.intents.path_free hpath hi',
          fun k hk => hrefresh.1.intents.key_free hkeys hi' hk⟩

end Registry

/-! ## Runs -/

theorem keeps_next (s : System) (a : Label) : s.registry.Keeps (s.next a).registry := by
  cases a with
  | claimStart os configured owner external shareToken =>
    simp only [System.next]
    split
    all_goals exact .refl _
  | claimFinish fs fs' c => exact Registry.keeps_claimFinish fs fs' c _
  | reserveExternalIntent os fs fs' configured owner =>
    exact Registry.keeps_reserveExternalIntent os fs fs' configured owner _
  | revalidate fs lease | issueShareToken lease => exact .refl _
  | revalidateIntent fs lease => exact Registry.keeps_revalidateIntent fs lease _
  | release claimId => exact Registry.keeps_release claimId _
  | releaseIntent intentId => exact Registry.keeps_releaseIntent intentId _

theorem reachable_tables {s : System} (h : system.Reachable s) : s.registry.Tables := by
  refine Transition.Reach.induction (I := fun s => s.registry.Tables) (fun s hs => ?_)
    (fun s a s' ih _ hs => ?_) h
  · obtain ⟨nonce, rfl⟩ := hs
    exact ⟨Registry.claimTables_new nonce, Registry.intentTables_new nonce⟩
  · rw [hs.2]
    exact (keeps_next s a ih).1

theorem leads_grows {s t : System} (h : system.Reachable s)
    (hs : system.Leads (fun _ _ => True) s t) : s.registry.Grows t.registry :=
  Transition.Leads.induction (R := fun s t => s.registry.Grows t.registry)
    (fun s => .refl s.registry) (fun _ _ _ => .trans)
    (fun s a s' hr _ hs => by rw [hs.2]; exact (keeps_next s a (reachable_tables hr)).2) h hs

/-- Serial-device exclusivity: in every reachable state the claims that share a
    key are in one share group, bound to one endpoint and, if external, alone
    in it; and a claim is granted away from every live intent, from its path
    and from every key it has and had at any time `t` before. -/
theorem serial_device_exclusivity {s : System} (h : system.Reachable s) :
    s.registry.Exclusive ∧
      ∀ fs fs' c lease, c ∈ s.inflight → (s.registry.claimFinish fs fs' c).1 = .ok lease →
        ∀ i now, (s.next (.claimFinish fs fs' c)).registry.intents.get? i = some now →
          now.normalizedPath ≠ c.normalized ∧
            (∀ k ∈ lease.identity.claimKeys, k ∉ now.claimKeys) ∧
            ∀ t, system.Reachable t →
              system.Leads (fun _ _ => True) t (s.next (.claimFinish fs fs' c)) →
                ∀ before, t.registry.intents.get? i = some before →
                  before.normalizedPath ≠ c.normalized ∧
                    ∀ k ∈ lease.identity.claimKeys, k ∉ before.claimKeys := by
  have ht := reachable_tables h
  refine ⟨ht.claims.exclusive, fun fs fs' c lease _ hgrant i now hnow => ?_⟩
  obtain ⟨hpath, hkeys⟩ := Registry.claimFinish_ok ht hgrant hnow
  refine ⟨hpath, hkeys, fun t hreach hleads before hbefore => ?_⟩
  -- The intent was live before, with the same path and no other keys.
  obtain ⟨t', ht', hp, hk⟩ := (leads_grows hreach hleads).2 i now
    ((reachable_tables hreach).intents.intent_le i before hbefore) hnow
  rw [hbefore] at ht'
  cases ht'
  exact ⟨hp ▸ hpath, fun k hkl hkb => hkeys k hkl (hk hkb)⟩

/-- An environment whose paths are already normal. -/
def plainPaths : OsPath := ⟨id, id, id, id⟩

/-- A filesystem with one device, the tty of a GPS receiver. -/
def gpsOnly : Resolver := fun path =>
  if path = "/dev/gps" then .found "/dev/ttyACM0" 166 0 none
  else .identityError "Serial device does not exist"

/-- The claim of the GPS receiver. -/
def gpsCall : Registry.Call := ⟨"/dev/gps", "/dev/gps", "gps", false, none⟩

/-- An external intent on an absent radio, and a claim of the receiver between
    its critical sections. -/
def besideIntent : System :=
  ((⟨.new 0, []⟩ : System).next
    (.reserveExternalIntent plainPaths gpsOnly gpsOnly "/dev/rnode" "rnsd")).next
    (.claimStart plainPaths "/dev/gps" "gps" false none)

theorem serial_device_exclusivity_beside_intent :
    besideIntent.registry.Exclusive ∧
      ∀ now, (besideIntent.next (.claimFinish gpsOnly gpsOnly gpsCall)).registry.intents.get? 1 =
        some now → now.normalizedPath ≠ "/dev/gps" ∧ ClaimKey.device 166 0 ∉ now.claimKeys := by
  have hnext : ∀ s a, system.Reachable s → a.enabled s → system.Reachable (s.next a) :=
    fun s a h he => h.step ⟨he, rfl⟩
  have hreach : system.Reachable besideIntent :=
    hnext _ (.claimStart plainPaths "/dev/gps" "gps" false none)
      (hnext _ (.reserveExternalIntent plainPaths gpsOnly gpsOnly "/dev/rnode" "rnsd")
        (Transition.Reach.init ⟨0, rfl⟩) trivial) trivial
  obtain ⟨hexcl, hgrant⟩ := serial_device_exclusivity hreach
  refine ⟨hexcl, fun now hnow => ?_⟩
  obtain ⟨hpath, hkeys, _⟩ := hgrant gpsOnly gpsOnly gpsCall
    ⟨⟨"/dev/gps", "/dev/ttyACM0", 166, 0, none⟩, "gps", false, 0, 1⟩ (by decide +kernel)
    (by decide +kernel) 1 now hnow
  exact ⟨hpath, hkeys _ (by decide)⟩

end ReticulumPi.Serial
