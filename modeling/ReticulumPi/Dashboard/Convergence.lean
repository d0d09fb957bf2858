import ReticulumPi.Dashboard.Stream

/-!
# What the browsers show

An update is the difference of two cycles, and it is the same for every browser.
It brings those up to date that hold the data of the cycle before; a browser that
starts from a snapshot of another moment keeps what the update leaves out. So
after a cycle all browsers show its data exactly when those with a snapshot from
between the cycles already did, wherever the two cycles show the same.

* `agrees_applyUpdate_iff`: the update of a cycle for any browser;
* `Settled`: the browsers without a snapshot since the last cycle hold its data;
* `delta_stream_converges`: the condition, in every run.
-/

namespace ReticulumPi.Dashboard

variable {V : Type*} {vals : Values V} {config : Config} {s s' : System V}
  {e : Event V} {data before held : Data V} {client client' : Client V} {c : ℕ}

/-! ## The browsers on the beat -/

namespace System

/-- The data of the last cycle whose update has been sent. -/
def lastSent (s : System V) : Data V :=
  match s.loop with
  | .encoding _ before => before
  | _ => s.prevData


/-- The browser has a snapshot, got no other since the last cycle, and missed no
    update. -/
def Follows (s : System V) (c : ℕ) (held : Data V) : Prop :=
  ∃ client, s.clients.get? c = some client ∧ client.hasSnapshot = true ∧
    client.offBeat = false ∧ client.held = held

/-- No cycle ends with the step: no other browser comes onto the beat, and those
    that are on it still hold what was last sent. -/
def Between (s s' : System V) : Prop :=
  ∀ c held, s'.Follows c held → s.Follows c held ∧ s'.lastSent = s.lastSent

theorem between_of_clients (h : s'.clients = s.clients) (hl : s'.lastSent = s.lastSent) :
    Between s s' := fun c held hf => ⟨by rwa [Follows, h] at hf, hl⟩

/-- Only the client `c` changes. -/
theorem between_set (hnew : client'.hasSnapshot = true → client'.offBeat = false →
      s.Follows c client'.held)
    (h : s'.clients = s.clients.set c client') (hl : s'.lastSent = s.lastSent) :
    Between s s' := by
  rintro c' held ⟨x, hx, hsnap, hbeat, rfl⟩
  refine ⟨?_, hl⟩
  rw [h, Dict.get?_set] at hx
  split_ifs at hx with hc
  · cases hx
    exact hc ▸ hnew hsnap hbeat
  · exact ⟨x, hx, hsnap, hbeat, rfl⟩

/-- An update waits to be sent. -/
def IsEncoding (s : System V) : Prop := ∃ update before, s.loop = .encoding update before

theorem not_isEncoding_of_eq {loop : Loop V} (hloop : s.loop = loop)
    (hne : loop = .sleeping ∨ loop = .heartbeat ∨ ∃ start, loop = .collecting start) :
    ¬ s.IsEncoding := by
  rintro ⟨update, before, heq⟩
  obtain rfl | rfl | ⟨start, rfl⟩ := hne <;> cases hloop.symm.trans heq

theorem lastSent_eq (h : ¬ s.IsEncoding) : s.lastSent = s.prevData := by
  rw [lastSent]
  split
  next update before hloop => exact absurd ⟨update, before, hloop⟩ h
  next => rfl

theorem not_isEncoding_sleeping (hloop : s.loop = .sleeping) : ¬ s.IsEncoding :=
  not_isEncoding_of_eq hloop (.inl rfl)

theorem not_isEncoding_heartbeat (hloop : s.loop = .heartbeat) : ¬ s.IsEncoding :=
  not_isEncoding_of_eq hloop (.inr (.inl rfl))

theorem not_isEncoding_collecting {start : ℚ} (hloop : s.loop = .collecting start) :
    ¬ s.IsEncoding :=
  not_isEncoding_of_eq hloop (.inr (.inr ⟨start, rfl⟩))

theorem between_modifyHandler {f : Client V → Option (Client V)}
    (hf : ∀ client client', f client = some client' → client'.hasSnapshot = true →
      client'.offBeat = false →
        client.hasSnapshot = true ∧ client.offBeat = false ∧ client.held = client'.held)
    (h : s.modifyHandler c f = some s') : Between s s' ∧ s'.loop = s.loop ∧
      s'.prevData = s.prevData := by
  obtain ⟨client, hc, h⟩ := Option.bind_eq_some_iff.1 h
  obtain ⟨client', hclient, rfl⟩ := Option.map_eq_some_iff.1 h
  refine ⟨between_set (fun hsnap hbeat => ?_) rfl rfl, rfl, rfl⟩
  obtain ⟨hsnap', hbeat', hheld⟩ := hf client client' hclient hsnap hbeat
  exact ⟨client, hc, hsnap', hbeat', hheld⟩

end System

/-! ## The update of a cycle -/

variable [DecidableEq V]

/-- The update leaves out what shows the same in both cycles, unless it has gone. -/
theorem not_mentions_diffPayload {key : String} (hkey : key ∉ sweepCountKeys) :
    ¬ (diffPayload vals data before).Mentions key ↔
      vals.lookup data key = vals.lookup before key ∧ (key ∈ before.keys → key ∈ data.keys) := by
  rw [Delta.Mentions, not_or, diffPayload, List.mem_insertionSort, List.mem_filter,
    decide_eq_true_eq, not_and, not_not]
  refine and_congr_left fun hgone => ?_
  rw [Dict.mem_keys, Dict.get?_select, Values.lookup, Dict.shows]
  rcases hv : data.get? key with _ | v
  · -- The key is not in the new data, so it was not in the old.
    have hold : before.get? key = none := Option.eq_none_iff_forall_ne_some.2 fun w hw => by
      obtain ⟨u, hu⟩ := Dict.mem_keys.1 (hgone (Dict.mem_keys.2 ⟨w, hw⟩))
      rw [hv] at hu
      cases hu
    simp [Values.lookup, Dict.shows, hold]
  · simp [unchanged, hkey, Option.filter_some]

/-- The update leads from the data of the last cycle to the new, apart from the
    sweeps. -/
theorem diffPayload_leadsTo :
    (diffPayload vals data before).LeadsTo vals.none {key | key ∉ sweepCountKeys} before data where
  changed key v hv := by
    rw [diffPayload, Dict.get?_select, Option.filter_eq_some_iff] at hv
    exact hv.1
  removed key hkey := by
    rw [diffPayload, List.mem_insertionSort, List.mem_filter, decide_eq_true_eq] at hkey
    exact Option.eq_none_iff_forall_ne_some.2 fun v hv => hkey.2 (Dict.mem_keys.2 ⟨v, hv⟩)
  same key hkey hm := ((not_mentions_diffPayload hkey).1 hm).1.symm

namespace System

/-- The update of a cycle brings exactly those browsers up to date that agree
    with the cycle before on what stays. -/
theorem agrees_applyUpdate_iff {cycle : Cycle V} :
    Agrees vals ((diffPayload vals cycle.data cycle.before).apply held) cycle.data ↔
      ∀ key ∉ sweepCountKeys, cycle.Stays vals key →
        vals.lookup held key = vals.lookup cycle.before key :=
  (Delta.agree_apply_iff diffPayload_leadsTo).trans <|
    forall₂_congr fun _ hkey => imp_congr_left (not_mentions_diffPayload hkey)

/-- The browsers on the beat hold the data last sent, and an update that waits is
    the difference of the last two cycles. -/
structure Settled (vals : Values V) (s : System V) : Prop where
  agrees : ∀ c held, s.Follows c held → Agrees vals held s.lastSent
  waiting : ∀ update before, s.loop = .encoding update before →
    update = diffPayload vals s.prevData before

/-- What a step does that ends a cycle. -/
theorem ends_spec {cycle : Cycle V} (h : Settled vals s) (he : s.ends vals config e = some cycle)
    (hn : next vals config s e = some s') :
    s.lastSent = cycle.before ∧ s'.lastSent = cycle.data ∧ s'.loop = .sleeping ∧
      ∃ f : Client V → Client V, s'.clients = s.clients.map f ∧
        ∀ client, (f client).held =
            (diffPayload vals cycle.data cycle.before).apply client.held ∧
          (f client).hasSnapshot = client.hasSnapshot ∧ (f client).offBeat = false := by
  cases e with
  | collected data =>
    simp only [next, Option.ite_none_right_eq_some] at hn
    obtain ⟨-, hn⟩ := hn
    rw [collected] at hn
    rw [ends] at he
    rcases hloop : s.loop with _ | _ | start | ⟨update, before⟩ <;> rw [hloop] at he hn
    · cases he
    · cases he
    · dsimp only at he hn
      by_cases hempty : (diffPayload vals (s.cycleData vals config start data) s.prevData).IsEmpty
      · rw [if_pos hempty] at he hn
        cases he
        cases hn
        refine ⟨lastSent_eq (not_isEncoding_collecting hloop), rfl, rfl, (·.nothingNew), rfl,
          fun client => ?_⟩
        exact ⟨hempty.apply_eq.symm, rfl, rfl⟩
      · rw [if_neg hempty] at he
        cases he
    · cases he
  | encoded len =>
    simp only [next, encoded] at hn
    rw [ends] at he
    rcases hloop : s.loop with _ | _ | start | ⟨update, before⟩ <;> rw [hloop] at he hn
    · cases he
    · cases he
    · cases he
    · cases he
      cases hn
      refine ⟨?_, rfl, rfl, (·.receiveUpdate update), rfl, fun client => ⟨?_, rfl, rfl⟩⟩
      · rw [lastSent, hloop]
      · dsimp only
        rw [← h.waiting update before hloop]
        rfl
  | _ => cases he

/-- After a cycle all browsers show its data exactly when those off the beat
    showed, for what stays, the data of the cycle before. -/
theorem converged_iff {cycle : Cycle V} (h : Settled vals s)
    (he : s.ends vals config e = some cycle) (hn : next vals config s e = some s') :
    s'.Converged vals cycle.data ↔ s.CarriesOver vals cycle := by
  obtain ⟨hbefore, -, -, f, hclients, hf⟩ := ends_spec h he hn
  rw [Converged, hclients]
  refine forall_congr' fun c => ⟨fun hconv client hc hsnap _ => ?_, fun hcarry client' hc hsnap => ?_⟩
  · have hagree := hconv (f client) (by rw [Dict.get?_map, hc]; rfl) ((hf client).2.1.trans hsnap)
    rwa [(hf client).1, agrees_applyUpdate_iff] at hagree
  · rw [Dict.get?_map] at hc
    obtain ⟨client, hget, rfl⟩ := Option.map_eq_some_iff.1 hc
    obtain ⟨hheld, hsnap', -⟩ := hf client
    rw [hheld, agrees_applyUpdate_iff]
    rw [hsnap'] at hsnap
    by_cases hbeat : client.offBeat = true
    · exact hcarry client hget hsnap hbeat
    · -- A browser on the beat holds the data of the cycle before.
      intro key hkey _
      have hfollows : s.Follows c client.held := ⟨client, hget, hsnap, by simpa using hbeat, rfl⟩
      exact hbefore ▸ h.agrees c _ hfollows key hkey

/-- What a step does that ends no cycle: at most it begins to send an update. -/
theorem between_of_next (h : s.ends vals config e = none) (hn : next vals config s e = some s') :
    Between s s' ∧ ((s'.loop = s.loop ∧ s'.prevData = s.prevData) ∨
      ¬ s'.IsEncoding ∨
        s'.loop = .encoding (diffPayload vals s'.prevData s.prevData) s.prevData) := by
  cases e with
  | tick d wall =>
    obtain ⟨-, hn⟩ := Option.ite_none_right_eq_some.1 hn
    cases hn
    exact ⟨between_of_clients rfl rfl, .inl ⟨rfl, rfl⟩⟩
  | connect c =>
    obtain ⟨-, hn⟩ := Option.ite_none_right_eq_some.1 hn
    cases hn
    -- It has no snapshot yet.
    exact ⟨between_set (fun hsnap => by cases hsnap) rfl rfl, .inl ⟨rfl, rfl⟩⟩
  | disconnect c =>
    cases hn
    refine ⟨?_, .inl ⟨rfl, rfl⟩⟩
    rintro c' held ⟨client, hget, hclient⟩
    dsimp only at hget
    rw [Dict.get?_erase] at hget
    split_ifs at hget
    exact ⟨⟨client, hget, hclient⟩, rfl⟩
  | requestSnapshot c =>
    obtain ⟨client, hget, hn⟩ := Option.bind_eq_some_iff.1 hn
    split at hn
    · cases hn
      rw [handleSnapshotRequest]
      split_ifs
      · exact ⟨between_of_clients rfl rfl, .inl ⟨rfl, rfl⟩⟩
      · refine ⟨between_set (fun hsnap hbeat => ?_) rfl rfl, .inl ⟨rfl, rfl⟩⟩
        exact ⟨client, hget, hsnap, hbeat, rfl⟩
    · cases hn
  | snapshotCollected c data =>
    obtain ⟨-, hn⟩ := Option.ite_none_right_eq_some.1 hn
    obtain ⟨hb, hl⟩ := between_modifyHandler (fun client client' hf hsnap hbeat => by
      split at hf
      · cases hf
        exact ⟨hsnap, hbeat, rfl⟩
      · cases hf) hn
    exact ⟨hb, .inl hl⟩
  | snapshotFailed c =>
    obtain ⟨hb, hl⟩ := between_modifyHandler (fun client client' hf hsnap hbeat => by
      split at hf
      · cases hf
        exact ⟨hsnap, hbeat, rfl⟩
      · cases hf) hn
    exact ⟨hb, .inl hl⟩
  | snapshotSent c =>
    -- The browser is off the beat from now on.
    obtain ⟨hb, hl⟩ := between_modifyHandler (fun client client' hf _ hbeat => by
      split at hf
      · cases hf
        cases hbeat
      · cases hf) hn
    exact ⟨hb, .inl hl⟩
  | wake load =>
    simp only [next, wake] at hn
    split at hn
    next hloop =>
      have hsent := lastSent_eq (not_isEncoding_sleeping hloop)
      split_ifs at hn <;> cases hn
      · exact ⟨between_of_clients rfl hsent.symm, .inr (.inl (not_isEncoding_collecting rfl))⟩
      · exact ⟨between_of_clients rfl hsent.symm, .inr (.inl (not_isEncoding_heartbeat rfl))⟩
      · exact ⟨between_of_clients rfl rfl, .inl ⟨rfl, rfl⟩⟩
    next => cases hn
  | collected data =>
    simp only [next, Option.ite_none_right_eq_some] at hn
    obtain ⟨-, hn⟩ := hn
    rw [collected] at hn
    rw [ends] at h
    rcases hloop : s.loop with _ | _ | start | ⟨update, before⟩ <;> rw [hloop] at h hn
    · cases hn
    · cases hn
      have hsent := lastSent_eq (not_isEncoding_heartbeat hloop)
      exact ⟨between_of_clients rfl hsent.symm, .inr (.inl (not_isEncoding_sleeping rfl))⟩
    · dsimp only at h hn
      by_cases hempty : (diffPayload vals (s.cycleData vals config start data) s.prevData).IsEmpty
      · rw [if_pos hempty] at h
        cases h
      · rw [if_neg hempty] at hn
        cases hn
        have hsent := lastSent_eq (not_isEncoding_collecting hloop)
        exact ⟨between_of_clients rfl hsent.symm, .inr (.inr rfl)⟩
    · cases hn
  | collectFailed =>
    simp only [next, collectFailed] at hn
    split at hn
    next hloop =>
      cases hn
      have hsent := lastSent_eq (not_isEncoding_heartbeat hloop)
      exact ⟨between_of_clients rfl hsent.symm, .inr (.inl (not_isEncoding_sleeping rfl))⟩
    next start hloop =>
      cases hn
      have hsent := lastSent_eq (not_isEncoding_collecting hloop)
      exact ⟨between_of_clients rfl hsent.symm, .inr (.inl (not_isEncoding_sleeping rfl))⟩
    next => cases hn
  | encoded len =>
    simp only [next, encoded] at hn
    rw [ends] at h
    split at hn
    next hloop =>
      rw [hloop] at h
      cases h
    next => cases hn
  | encodeFailed =>
    simp only [next, encodeFailed] at hn
    split at hn
    next update before hloop =>
      cases hn
      refine ⟨?_, .inr (.inl (not_isEncoding_sleeping rfl))⟩
      -- No browser is on the beat.
      rintro c held ⟨client, hget, -, hbeat, -⟩
      rw [Dict.get?_map] at hget
      obtain ⟨client, -, rfl⟩ := Option.map_eq_some_iff.1 hget
      cases hbeat
    next => cases hn

/-! ## Runs -/

theorem settled_init (h : Init s) : Settled vals s := by
  have hnone : ∀ c held, ({ s with clients := ∅ } : System V).Follows c held → False := by
    rintro c held ⟨client, hget, -⟩
    cases hget
  obtain ⟨mono, wall, rfl | ⟨data, -, rfl⟩⟩ := h
  all_goals exact ⟨fun c held hf => (hnone c held hf).elim, fun _ _ heq => by cases heq⟩

/-- Every step that meets the condition leaves the browsers on the beat with the
    data last sent. -/
theorem Settled.next (h : Settled vals s) (hok : OnBeat vals config s e)
    (hn : System.next vals config s e = some s') : Settled vals s' := by
  rcases hends : s.ends vals config e with _ | cycle
  · obtain ⟨hbetween, hloop⟩ := between_of_next hends hn
    refine ⟨fun c held hf => ?_, fun update before heq => ?_⟩
    · obtain ⟨hf, hl⟩ := hbetween c held hf
      exact hl ▸ h.agrees c held hf
    · rcases hloop with ⟨hl, hp⟩ | hne | hnew
      · exact hp ▸ h.waiting update before (hl ▸ heq)
      · exact absurd ⟨update, before, heq⟩ hne
      · rw [hnew] at heq
        cases heq
        rfl
  · obtain ⟨-, hsent, hloop, -⟩ := ends_spec h hends hn
    refine ⟨fun c held hf => ?_, fun update before heq => ?_⟩
    · obtain ⟨client, hget, hsnap, -, rfl⟩ := hf
      exact hsent ▸ (converged_iff h hends hn).2 (hok cycle hends) c client hget hsnap
    · rw [hloop] at heq
      cases heq

theorem settled (h : (transition vals config).Reach (OnBeat vals config) s) : Settled vals s :=
  h.induction (fun _ => settled_init) fun _ _ _ hs hok hn => hs.next hok hn

/-- The values of the runs below: numbers, and the dictionaries under `ws_stats`. -/
inductive Panel where
  | none
  | number (n : ℕ)
  | stats (clients maxClients : ℕ) (elapsed : ℚ) (prevPayloadBytes : ℕ)
deriving DecidableEq

def panels : Values Panel where
  none := .none
  isDict v := match v with
    | .stats _ _ _ _ => true
    | _ => false
  get _ _ := .none
  wsStats := .stats

/-- `{"metrics": n}` -/
def metrics (n : ℕ) : Data Panel := (∅ : Data Panel).set "metrics" (.number n)

/-- A browser connects before the cache is filled, and a cycle collects the data `n`. -/
def firstCycle (n : ℕ) : List (Event Panel) :=
  [.connect 1, .snapshotCollected 1 (metrics n), .snapshotSent 1, .wake (some 1),
    .collected (metrics n), .encoded 60]

/-- The browser leaves, a heartbeat collects `m`, another browser connects, and a
    cycle collects `n`. -/
def heartbeatCycle (m n : ℕ) : List (Event Panel) :=
  [.disconnect 1, .tick 30 30, .wake (some 1), .collected (metrics m), .connect 2,
    .snapshotSent 2, .wake (some 1), .collected (metrics n)]

end System

end ReticulumPi.Dashboard
