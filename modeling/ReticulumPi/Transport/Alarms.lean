import Mathlib.Tactic.Linarith
import ReticulumPi.Transport.Health

/-!
# Alarms about transport nodes

What the events about a relay should say of it: it is down when it was absent
long enough, and once for each absence; it has recovered when it is present,
and once for each alarm. Two things are not so. The database does not hold for
how long a relay has been absent, so that after a restart a relay that is down
and still absent counts as absent for one check only; and a relay that was down
is announced as recovered only when it goes from down to healthy at once.
-/

namespace ReticulumPi.Transport

open Past

variable {settings : Settings} {via : Dict String ViaInfo} {now : ℚ} {hash : String}
  {record : NodeRecord} {nodes : Dict String NodeRecord} {name : String → String}

/-! ## The status of one relay -/

/-- The availability of a relay after a check that counts `present` for it. -/
def availabilityAfter (record : NodeRecord) (present : Bool) : ℚ :=
  (record.totalAppearances + present.toNat : ℕ) / (record.totalChecks + 1 : ℕ) * 100

theorem not_mem_keys (h : via.get? hash = none) : hash ∉ via.keys := fun hk => by
  obtain ⟨info, hinfo⟩ := Dict.mem_keys.1 hk
  rw [h] at hinfo
  cases hinfo

theorem checkNode_down_iff :
    (checkNode settings via now hash record).status = .down ↔
      3 ≤ record.totalChecks ∧ hash ∉ via.keys ∧
        settings.downThreshold ≤ record.consecutiveAbsent + 1 := by
  have := settings.downThreshold_pos
  rcases h : via.get? hash with _ | info
  · have hk := not_mem_keys h
    simp only [checkNode, h, updateRecord, classifyStatus]
    split_ifs <;> simp_all
    all_goals omega
  · have hk : hash ∈ via.keys := Dict.mem_keys.2 ⟨info, h⟩
    simp only [checkNode, h, updateRecord, classifyStatus]
    -- A relay that is present has not been absent for any check.
    split_ifs <;> simp_all

theorem checkNode_healthy_iff :
    (checkNode settings via now hash record).status = .healthy ↔
      3 ≤ record.totalChecks ∧
        (hash ∈ via.keys ∨ record.consecutiveAbsent + 1 < settings.downThreshold) ∧
          settings.degradedPct ≤ availabilityAfter record (hash ∈ via.keys) := by
  have := settings.downThreshold_pos
  rcases h : via.get? hash with _ | info
  · have hk := not_mem_keys h
    simp only [checkNode, h, updateRecord, classifyStatus, availabilityAfter]
    split_ifs <;> simp_all
    all_goals omega
  · have hk : hash ∈ via.keys := Dict.mem_keys.2 ⟨info, h⟩
    simp only [checkNode, h, updateRecord, classifyStatus, availabilityAfter]
    split_ifs <;> simp_all
    all_goals omega

theorem checkNode_consecutiveAbsent (h : hash ∉ via.keys) :
    (checkNode settings via now hash record).consecutiveAbsent = record.consecutiveAbsent + 1 := by
  rcases hk : via.get? hash with _ | info
  · simp only [checkNode, hk, updateRecord]
  · exact absurd (Dict.mem_keys.2 ⟨info, hk⟩) h

theorem checkNode_consecutiveAbsent_of_mem (h : hash ∈ via.keys) :
    (checkNode settings via now hash record).consecutiveAbsent = 0 := by
  obtain ⟨info, hinfo⟩ := Dict.mem_keys.1 h
  simp only [checkNode, hinfo, updateRecord]

theorem checkNode_totalChecks :
    (checkNode settings via now hash record).totalChecks = record.totalChecks + 1 := by
  rcases hk : via.get? hash with _ | info <;> simp only [checkNode, hk, updateRecord]

/-! ## What a check publishes -/

/-- How often the check published TRANSPORT_NODE_DOWN for the relay. -/
def Check.downs (hash : String) (c : Check) : ℕ := c.alarms.countP (·.isDown hash)

/-- How often the check published TRANSPORT_NODE_RECOVERED for the relay. -/
def Check.recoveries (hash : String) (c : Check) : ℕ := c.alarms.countP (·.isRecovered hash)

theorem countP_isDown_handleTransition {relay : String} {oldStatus newStatus : Status}
    {currentPaths maxPaths : ℕ} :
    (handleTransition hash oldStatus newStatus currentPaths maxPaths).countP (·.isDown relay) =
      if hash = relay ∧ newStatus = .down ∧ oldStatus ≠ .down then 1 else 0 := by
  cases oldStatus <;> cases newStatus <;> by_cases h : hash = relay <;>
    simp [handleTransition, Alarm.isDown, h]

theorem countP_isRecovered_handleTransition {relay : String} {oldStatus newStatus : Status}
    {currentPaths maxPaths : ℕ} :
    (handleTransition hash oldStatus newStatus currentPaths maxPaths).countP
        (·.isRecovered relay) =
      if hash = relay ∧ newStatus = .healthy ∧ oldStatus = .down then 1 else 0 := by
  cases oldStatus <;> cases newStatus <;> by_cases h : hash = relay <;>
    simp [handleTransition, Alarm.isRecovered, h]

/-- An alarm of a kind that no discovery is counts in the check of its relay alone. -/
theorem countP_alarms {p : Alarm → Bool} (hp : ∀ h n, p (.discovered h n) = false)
    (hother : ∀ e, e.1 ≠ hash → (checkAlarms settings via now e).countP p = 0) :
    (alarms settings nodes via now).countP p =
      match nodes.get? hash with
      | some record => (checkAlarms settings via now (hash, record)).countP p
      | none => 0 := by
  have hnew : ((undiscovered nodes via).map fun e => Alarm.discovered e.1 e.2.count).countP p = 0 := by
    simp [List.countP_eq_zero, hp]
  rw [alarms, List.countP_append, hnew, Nat.add_zero]
  rcases h : nodes.get? hash with _ | record
  · rw [List.countP_eq_zero]
    intro a ha
    obtain ⟨e, he, ha⟩ := List.mem_flatMap.1 ha
    -- No record has the hash.
    have hne : e.1 ≠ hash := fun hek => Dict.get?_eq_none_iff.1 h e.2 (hek ▸ he)
    exact List.countP_eq_zero.1 (hother e hne) a ha
  · exact Dict.countP_flatMap_entries h fun e he => List.countP_eq_zero.1 (hother e he)

theorem countP_isDown_alarms :
    (alarms settings nodes via now).countP (·.isDown hash) =
      match nodes.get? hash with
      | some record =>
        if (checkNode settings via now hash record).status = .down ∧ record.status ≠ .down then 1
        else 0
      | none => 0 := by
  rw [countP_alarms (fun _ _ => rfl) fun e he => ?_]
  · rcases nodes.get? hash with _ | record
    · rfl
    · simp [checkAlarms, countP_isDown_handleTransition]
  · simp [checkAlarms, countP_isDown_handleTransition, he]

theorem countP_isRecovered_alarms :
    (alarms settings nodes via now).countP (·.isRecovered hash) =
      match nodes.get? hash with
      | some record =>
        if (checkNode settings via now hash record).status = .healthy ∧ record.status = .down then 1
        else 0
      | none => 0 := by
  rw [countP_alarms (fun _ _ => rfl) fun e he => ?_]
  · rcases nodes.get? hash with _ | record
    · rfl
    · simp [checkAlarms, countP_isRecovered_handleTransition]
  · simp [checkAlarms, countP_isRecovered_handleTransition, he]

/-! ## The records after a check -/

theorem mem_undiscovered {e : String × ViaInfo} :
    e ∈ undiscovered nodes via ↔ nodes.get? e.1 = none ∧ via.get? e.1 = some e.2 := by
  rw [undiscovered, List.mem_filter, decide_eq_true_iff, Dict.mem_keys, Dict.get?_eq_some_iff,
    Option.eq_none_iff_forall_ne_some, and_comm, not_exists]

theorem get?_checkNodes :
    (checkNodes settings nodes via now name).get? hash =
      match nodes.get? hash with
      | some record => some (checkNode settings via now hash record)
      | none => (via.get? hash).map fun info => newRecord hash info now (name hash) := by
  rcases h : nodes.get? hash with _ | record
  · rcases hv : via.get? hash with _ | info
    · rw [checkNodes, Dict.get?_foldl_set_of_ne, Dict.get?_mapWithKey, h]
      · rfl
      · intro e he hek
        rw [mem_undiscovered, hek, hv] at he
        cases he.2
    · have he : (hash, info) ∈ undiscovered nodes via := mem_undiscovered.2 ⟨h, hv⟩
      have hnd : ((undiscovered nodes via).map Prod.fst).Nodup :=
        via.nodup.sublist (List.filter_sublist.map _)
      exact Dict.get?_foldl_set_of_mem
        (g := fun e : String × ViaInfo => newRecord e.1 e.2 now (name e.1)) hnd he
  · rw [checkNodes, Dict.get?_foldl_set_of_ne, Dict.get?_mapWithKey, h]
    · rfl
    · intro e he hek
      rw [mem_undiscovered, hek, h] at he
      cases he.1

/-! ## What the alarms should say -/

/-- The relay was announced as down, and has been absent from every check since. -/
def StillDown (hash : String) (log : List Check) : Prop :=
  Since (fun c => hash ∉ c.present) (fun c => 0 < c.downs hash) log

/-- The relay was announced as down, and has not been healthy after any check since. -/
def Unanswered (hash : String) (log : List Check) : Prop :=
  Since (fun c => hash ∉ c.healthy) (fun c => 0 < c.downs hash) log
deriving Decidable

/-- What the check `c` publishes about the relay is true, after the checks `log`. -/
structure Truthful (downThreshold : ℕ) (hash : String) (c : Check) (log : List Check) : Prop where
  /-- A relay announced as down has been absent long enough. -/
  absent : 0 < c.downs hash → downThreshold ≤ streak (fun c => hash ∉ c.present) (c :: log)
  /-- It is not announced again before it was present. -/
  once : 0 < c.downs hash → ¬ StillDown hash log ∧ c.downs hash = 1
  /-- A relay announced as recovered is present. -/
  present : 0 < c.recoveries hash → hash ∈ c.present
  /-- The first check that leaves it healthy after an alarm announces that once. -/
  answered : Unanswered hash log → hash ∈ c.healthy → c.recoveries hash = 1

/-- What the latest check published is true. -/
def TellsTruth (downThreshold : ℕ) : List Check → Prop
  | [] => True
  | c :: log => ∀ hash, Truthful downThreshold hash c log

/-! ## The condition on a check -/

/-- The check has, in the state before it, neither of the two cases that the
    plugin gets wrong. -/
structure Steady (settings : Settings) (s : System) (via : Dict String ViaInfo) : Prop where
  /-- A relay that is down and still absent is known to be absent long enough. -/
  absent : ∀ e ∈ s.nodes.entries, e.2.status = .down → e.1 ∉ via.keys →
    settings.downThreshold ≤ e.2.consecutiveAbsent + 1
  /-- A relay whose alarm is not answered has the status down, or has not enough
      checks, presence or availability to become healthy. -/
  direct : ∀ e ∈ s.nodes.entries, Unanswered e.1 s.log → e.2.status ≠ .down →
    ¬ (3 ≤ e.2.totalChecks ∧
      (e.1 ∈ via.keys ∨ e.2.consecutiveAbsent + 1 < settings.downThreshold) ∧
        settings.degradedPct ≤ availabilityAfter e.2 (e.1 ∈ via.keys))

/-- The condition on an event: a check has neither case. -/
def KeepsAlarms (settings : Settings) (s : System) : Event → Prop
  | .check paths _ _ _ => Steady settings s (getCurrentViaMap paths)
  | .restart => True

/-! ## The invariant -/

/-- What the records know of the checks so far, and that the database has all
    of them. -/
structure Kept (settings : Settings) (s : System) : Prop where
  absent : ∀ {hash record}, s.nodes.get? hash = some record →
    record.consecutiveAbsent ≤ streak (fun c => hash ∉ c.present) s.log
  down : ∀ {hash record}, s.nodes.get? hash = some record → StillDown hash s.log →
    record.status = .down
  checked : ∀ {hash record}, s.nodes.get? hash = some record → record.status = .down →
    3 < record.totalChecks
  rows : ∀ hash, s.rows.get? hash = (s.nodes.get? hash).map NodeRecord.row
  truthful : Throughout (TellsTruth settings.downThreshold) s.log

namespace System

variable {s s' : System}

theorem kept_init : Kept settings {} where
  absent h := by cases h
  down h := by cases h
  checked h := by cases h
  rows _ := rfl
  truthful := throughout_nil trivial

/-- Dropping relays keeps the invariant, when they are dropped from both. -/
theorem kept_pruneHistory (now : ℚ) (h : Kept settings s) :
    Kept settings (s.pruneHistory settings now) := by
  have hsub : ∀ {hash record}, (s.pruneHistory settings now).nodes.get? hash = some record →
      s.nodes.get? hash = some record := fun hr => by
    rw [pruneHistory, Dict.get?_filter, Option.filter_eq_some_iff] at hr
    exact hr.1
  refine ⟨fun hr => h.absent (hsub hr), fun hr => h.down (hsub hr), fun hr => h.checked (hsub hr),
    fun hash => ?_, h.truthful⟩
  simp only [pruneHistory, Dict.get?_filter, h.rows]
  -- The record and its row were seen at the same time.
  rcases s.nodes.get? hash with _ | record
  · rfl
  · by_cases hr : now - settings.historyRetentionHours * 3600 ≤ record.lastSeen <;>
      simp [NodeRecord.row, hr, Option.filter]

/-- A restart forgets for how long the relays have been absent, and nothing
    else that the invariant speaks of. -/
theorem kept_restart (h : Kept settings s) : Kept settings s.restart := by
  have hget : ∀ hash, s.restart.nodes.get? hash =
      (s.nodes.get? hash).map fun r => r.row.record hash := fun hash => by
    rw [restart, loadFromDb, Dict.get?_foldl_entries, h.rows, Dict.get?_empty, Option.or_none,
      Option.map_map]
    rfl
  refine ⟨fun hr => ?_, fun hr hd => ?_, fun hr hd => ?_, fun hash => ?_, h.truthful⟩
  · rw [hget, Option.map_eq_some_iff] at hr
    obtain ⟨record, hr, rfl⟩ := hr
    exact Nat.zero_le _
  · rw [hget, Option.map_eq_some_iff] at hr
    obtain ⟨record, hr, rfl⟩ := hr
    have hdown := h.down hr hd
    exact hdown
  · rw [hget, Option.map_eq_some_iff] at hr
    obtain ⟨record, hr, rfl⟩ := hr
    have hchecked := h.checked hr hd
    exact hchecked
  · rw [hget, Option.map_map]
    exact h.rows hash

/-- The records after the check, by whether the relay had one. -/
theorem get?_checkRelays {record : NodeRecord}
    (h : (s.checkRelays settings via name now).nodes.get? hash = some record) :
    (∃ r, s.nodes.get? hash = some r ∧ record = checkNode settings via now hash r) ∨
      (s.nodes.get? hash = none ∧ hash ∈ via.keys ∧ record.status = .new ∧
        record.consecutiveAbsent = 0) := by
  simp only [checkRelays, get?_checkNodes] at h
  rcases hr : s.nodes.get? hash with _ | r
  · rw [hr, Option.map_eq_some_iff] at h
    obtain ⟨info, hinfo, rfl⟩ := h
    exact .inr ⟨rfl, Dict.mem_keys.2 ⟨info, hinfo⟩, rfl, rfl⟩
  · rw [hr, Option.some.injEq] at h
    exact .inl ⟨r, rfl, h.symm⟩

/-- A relay the check announces as down has a record, with another status. -/
theorem downs_seen_pos :
    0 < (s.seen settings via name now).downs hash ↔
      ∃ r, s.nodes.get? hash = some r ∧ r.status ≠ .down ∧
        (checkNode settings via now hash r).status = .down := by
  rw [Check.downs, seen, countP_isDown_alarms]
  rcases s.nodes.get? hash with _ | r
  · simp
  · dsimp only
    split_ifs with hc
    · exact ⟨fun _ => ⟨r, rfl, hc.2, hc.1⟩, fun _ => Nat.one_pos⟩
    · refine ⟨fun h => absurd h (Nat.lt_irrefl 0), ?_⟩
      rintro ⟨r', hr, hold, hnew⟩
      rw [← Option.some.inj hr] at hold hnew
      exact absurd ⟨hnew, hold⟩ hc

theorem downs_seen_le : (s.seen settings via name now).downs hash ≤ 1 := by
  rw [Check.downs, seen, countP_isDown_alarms]
  rcases s.nodes.get? hash with _ | r
  · exact Nat.zero_le _
  · dsimp only
    split_ifs <;> simp

theorem recoveries_seen_pos :
    0 < (s.seen settings via name now).recoveries hash ↔
      ∃ r, s.nodes.get? hash = some r ∧ r.status = .down ∧
        (checkNode settings via now hash r).status = .healthy := by
  rw [Check.recoveries, seen, countP_isRecovered_alarms]
  rcases s.nodes.get? hash with _ | r
  · simp
  · dsimp only
    split_ifs with hc
    · exact ⟨fun _ => ⟨r, rfl, hc.2, hc.1⟩, fun _ => Nat.one_pos⟩
    · refine ⟨fun h => absurd h (Nat.lt_irrefl 0), ?_⟩
      rintro ⟨r', hr, hold, hnew⟩
      rw [← Option.some.inj hr] at hold hnew
      exact absurd ⟨hnew, hold⟩ hc

theorem recoveries_seen_le : (s.seen settings via name now).recoveries hash ≤ 1 := by
  rw [Check.recoveries, seen, countP_isRecovered_alarms]
  rcases s.nodes.get? hash with _ | r
  · exact Nat.zero_le _
  · dsimp only
    split_ifs <;> simp

/-- A relay the check leaves healthy had a record before. -/
theorem mem_healthy_seen (h : hash ∈ (s.seen settings via name now).healthy) :
    ∃ r, s.nodes.get? hash = some r ∧ (checkNode settings via now hash r).status = .healthy := by
  obtain ⟨e, he, rfl⟩ := List.mem_map.1 h
  obtain ⟨he, hs⟩ := List.mem_filter.1 he
  have hget : (s.checkRelays settings via name now).nodes.get? e.1 = some e.2 :=
    Dict.get?_eq_some_iff.2 he
  rcases get?_checkRelays hget with ⟨r, hr, heq⟩ | ⟨-, -, hnew, -⟩
  · exact ⟨r, hr, heq ▸ of_decide_eq_true hs⟩
  · rw [hnew] at hs
    cases hs

/-- What the check publishes is true, when it has none of the two cases. -/
theorem truthful_seen (h : Kept settings s) (hok : Steady settings s via) :
    Truthful settings.downThreshold hash (s.seen settings via name now) s.log where
  absent hpos := by
    obtain ⟨r, hr, -, hdown⟩ := downs_seen_pos.1 hpos
    obtain ⟨-, habs, hle⟩ := checkNode_down_iff.1 hdown
    have hmiss : hash ∉ (s.seen settings via name now).present := habs
    rw [streak_cons_of_pos (p := fun c : Check => hash ∉ c.present) hmiss]
    exact hle.trans (Nat.succ_le_succ (h.absent hr))
  once hpos := by
    obtain ⟨r, hr, hne, -⟩ := downs_seen_pos.1 hpos
    exact ⟨fun hstill => hne (h.down hr hstill), Nat.le_antisymm downs_seen_le hpos⟩
  present hpos := by
    obtain ⟨r, hr, hdown, hhealthy⟩ := recoveries_seen_pos.1 hpos
    by_contra habs
    -- A relay that is down and absent for long enough stays down.
    have hle := hok.absent _ (Dict.get?_eq_some_iff.1 hr) hdown habs
    rcases (checkNode_healthy_iff.1 hhealthy).2.1 with hmem | hlt
    · exact habs hmem
    · exact absurd hle (Nat.not_le.2 hlt)
  answered hun hmem := by
    obtain ⟨r, hr, hhealthy⟩ := mem_healthy_seen hmem
    have hdown : r.status = .down := by
      by_contra hne
      exact hok.direct _ (Dict.get?_eq_some_iff.1 hr) hun hne (checkNode_healthy_iff.1 hhealthy)
    exact Nat.le_antisymm recoveries_seen_le (recoveries_seen_pos.2 ⟨r, hr, hdown, hhealthy⟩)

/-- A check without the two cases keeps the invariant. -/
theorem kept_checkRelays (name : String → String) (now : ℚ) (h : Kept settings s)
    (hok : Steady settings s via) : Kept settings (s.checkRelays settings via name now) where
  absent {hash record} hrec := by
    rcases get?_checkRelays hrec with ⟨r, hr, rfl⟩ | ⟨-, -, -, hzero⟩
    · by_cases hmem : hash ∈ via.keys
      · rw [checkNode_consecutiveAbsent_of_mem hmem]
        exact Nat.zero_le _
      · have habs : hash ∉ (s.seen settings via name now).present := hmem
        rw [checkNode_consecutiveAbsent hmem, checkRelays,
          streak_cons_of_pos (p := fun c : Check => hash ∉ c.present) habs]
        exact Nat.succ_le_succ (h.absent hr)
    · rw [hzero]
      exact Nat.zero_le _
  down {hash record} hrec hstill := by
    rcases since_cons.1 hstill with hpos | ⟨habs, hstill⟩
    · obtain ⟨r, hr, -, hdown⟩ := downs_seen_pos.1 hpos
      rcases get?_checkRelays hrec with ⟨r', hr', rfl⟩ | ⟨hnone, -⟩
      · rw [hr, Option.some.injEq] at hr'
        rwa [hr'] at hdown
      · rw [hr] at hnone
        cases hnone
    · rcases get?_checkRelays hrec with ⟨r, hr, rfl⟩ | ⟨-, hmem, -⟩
      · have hdown := h.down hr hstill
        have hle := hok.absent _ (Dict.get?_eq_some_iff.1 hr) hdown habs
        exact checkNode_down_iff.2 ⟨(h.checked hr hdown).le, habs, hle⟩
      · exact absurd hmem habs
  checked {hash record} hrec hdown := by
    rcases get?_checkRelays hrec with ⟨r, hr, rfl⟩ | ⟨-, -, hnew, -⟩
    · rw [checkNode_totalChecks]
      exact Nat.lt_succ_of_le (checkNode_down_iff.1 hdown).1
    · rw [hnew] at hdown
      cases hdown
  rows hash := by
    rw [checkRelays, persistToDb, Dict.get?_foldl_entries (f := fun _ r => NodeRecord.row r),
      h.rows, get?_checkNodes]
    rcases s.nodes.get? hash with _ | r
    · exact Option.or_none
    · rfl
  truthful := throughout_cons.2 ⟨fun _ => truthful_seen h hok, h.truthful⟩

theorem kept_next (e : Event) (h : Kept settings s) (hok : KeepsAlarms settings s e) :
    Kept settings (next settings s e) := by
  cases e with
  | check paths name now pruneNow =>
    have hcheck := kept_checkRelays name now h hok
    simp only [next, runCheck]
    split_ifs
    · have hprune := kept_pruneHistory pruneNow hcheck
      exact { hprune with }
    · exact { hcheck with }
  | restart => exact kept_restart h

/-- A check that finds paths through the relays. -/
def checkOf (relays : List String) : Event :=
  .check (relays.map fun relay => ⟨relay, "tcp"⟩) id 0 0

/-- A relay is present in seventeen checks, absent in three, and the plugin starts again. -/
def absenceRun : List Event :=
  List.replicate 17 (checkOf ["relay"]) ++ List.replicate 3 (checkOf []) ++ [.restart]

/-- A relay is present in five checks, absent in three, and present again. -/
def presenceRun : List Event :=
  List.replicate 5 (checkOf ["relay"]) ++ List.replicate 3 (checkOf []) ++
    List.replicate 7 (checkOf ["relay"])

instance (s : System) (e : Event) : Decidable (KeepsAlarms settings s e) :=
  match e with
  | .check _ _ _ _ => decidable_of_iff (_ ∧ _) ⟨fun h => ⟨h.1, h.2⟩, fun h => ⟨h.1, h.2⟩⟩
  | .restart => inferInstanceAs (Decidable True)

end System

end ReticulumPi.Transport
