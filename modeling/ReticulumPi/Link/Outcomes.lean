import ReticulumPi.Link.Probes

/-!
# The outcome of every probe

Every probe whose send was counted is pending, or has exactly one record. The
counters agree with the table of pending probes, apart from the probes that
`stop_test` discards; and a probe to which a response comes in time, while its
test is running, is never recorded as lost.
-/

namespace ReticulumPi.Link

open List

variable {settings : Settings}

/-- The sequence numbers below which the probes of a loop lie so far. -/
def LoopPc.bound : LoopPc → ℕ
  | head seq => seq
  | entering seq => seq
  | timing seq => seq
  | staging seq _ _ => seq
  | sending p => p.seq + 1
  | sent p => p.seq + 1
  | replaying p _ => p.seq + 1
  | unstaging p => p.seq + 1
  | failed seq => seq + 1
  | waiting seq => seq
  | finishing seq => seq + 1

/-- The probe that a loop has given to the SDK and whose send is not counted. -/
def LoopPc.inFlight : LoopPc → Option Probe
  | sending p => some p
  | sent p => some p
  | unstaging p => some p
  | _ => none

/-- The probe under whose staging key a response may be kept for the loop. -/
def LoopPc.awaited : LoopPc → Option Probe
  | sending p => some p
  | sent p => some p
  | _ => none

variable {p : Probe}

theorem LoopPc.inFlight_of_awaited {pc : LoopPc} (h : pc.awaited = some p) :
    pc.inFlight = some p := by
  cases pc <;> simp_all [awaited, inFlight]

section AfterSend

variable {p q : Probe} {early : Option PyValue} {packet : PyValue}

theorem LoopPc.afterSend_bound : (afterSend p early).bound = p.seq + 1 := by
  cases early <;> rfl

theorem LoopPc.afterSend_inFlight : (afterSend p early).inFlight = none := by
  cases early <;> rfl

theorem LoopPc.afterSend_awaited : (afterSend p early).awaited = none := by
  cases early <;> rfl

theorem LoopPc.afterSend_replaying (h : afterSend p early = .replaying q packet) :
    p = q ∧ early = some packet := by
  cases early with
  | none => cases h
  | some packet' =>
    obtain ⟨rfl, rfl⟩ := LoopPc.replaying.inj h
    exact ⟨rfl, rfl⟩

end AfterSend

/-- The packet is a routing response to the probe. -/
def Answers (settings : Settings) (packet : PyValue) (p : Probe) : Prop :=
  ∃ reason, parseRoutingResponse settings.upper packet = some (p.packetId, reason)

/-- What the probes, their loops, the pending table and the log have to do with
    one another. -/
structure Sound (settings : Settings) (s : System) : Prop where
  active : s.tester.active = true
  ids_nodup : (s.probes.map (·.packetId)).Nodup
  probe_gen : ∀ p ∈ s.probes, p.generation ≤ s.tester.testGeneration
  probe_key : ∀ p ∈ s.probes, ∀ q ∈ s.probes, p.stagingKey = q.stagingKey → p = q
  loop_gen : ∀ g l, s.loops.get? g = some l → g ≤ s.tester.testGeneration
  loop_running : ∀ l, s.loops.get? s.tester.testGeneration = some l → s.tester.testRunning = true
  loop_bound : ∀ g l, s.loops.get? g = some l → ∀ p ∈ s.probes, p.generation = g →
    p.seq < l.pc.bound
  in_flight : ∀ g l p, s.loops.get? g = some l → l.pc.inFlight = some p →
    p ∈ s.probes ∧ p.generation = g ∧ p.packetId ∉ s.registered
  replaying : ∀ g l p packet, s.loops.get? g = some l → l.pc = .replaying p packet →
    p ∈ s.probes ∧ p.generation = g ∧ p.packetId ∈ s.registered ∧ Answers settings packet p
  staged : ∀ l p, s.loops.get? s.tester.testGeneration = some l → l.pc.awaited = some p →
    p.stagingKey ∈ s.tester.pendingProbeSends
  early : ∀ key packet, s.tester.earlyProbeAcks.get? key = some packet →
    ∃ p ∈ s.probes, p.stagingKey = key ∧ Answers settings packet p
  pending : ∀ id e, s.tester.pendingProbes.get? id = some e →
    id ∈ s.registered ∧ (∀ r, (id, r) ∉ s.log) ∧
      ∃ p ∈ s.probes, p.packetId = id ∧ p.generation = s.tester.testGeneration ∧ e = p.pending
  registered : ∀ id ∈ s.registered, ∃ p ∈ s.probes, p.packetId = id
  log_nodup : (s.log.map (·.1)).Nodup
  log_registered : ∀ e ∈ s.log, e.1 ∈ s.registered
  kept : ∀ p ∈ s.probes, p.packetId ∈ s.registered → p.generation = s.tester.testGeneration →
    (∃ e, s.tester.pendingProbes.get? p.packetId = some e) ∨ ∃ r, (p.packetId, r) ∈ s.log
  late : ∀ p ∈ s.probes, ∀ r, (p.packetId, r) ∈ s.log → r.status = .lost →
    settings.probeTimeout < s.clock - p.sendMono
  sweep : ∀ now, s.sweep = some now → now ≤ s.clock

variable {s : System}

theorem System.get?_goto {g g' : ℕ} {l l' : ProbeLoop} {pc : LoopPc}
    (h : (s.goto g l pc).loops.get? g' = some l') :
    (g' = g ∧ l'.pc = pc) ∨ (g' ≠ g ∧ s.loops.get? g' = some l') := by
  rw [System.goto, Dict.get?_set] at h
  split_ifs at h with hg
  · cases h
    exact .inl ⟨hg, rfl⟩
  · exact .inr ⟨hg, h⟩

/-- What a loop has to do with the tester, the probes, and the ids of those whose
    send was counted. -/
structure LoopSound (settings : Settings) (t : LoraLinkTester) (probes : List Probe)
    (registered : List ℕ) (g : ℕ) (l : ProbeLoop) : Prop where
  gen : g ≤ t.testGeneration
  running : g = t.testGeneration → t.testRunning = true
  bound : ∀ p ∈ probes, p.generation = g → p.seq < l.pc.bound
  in_flight : ∀ p, l.pc.inFlight = some p →
    p ∈ probes ∧ p.generation = g ∧ p.packetId ∉ registered
  replaying : ∀ p packet, l.pc = .replaying p packet →
    p ∈ probes ∧ p.generation = g ∧ p.packetId ∈ registered ∧ Answers settings packet p
  staged : g = t.testGeneration → ∀ p, l.pc.awaited = some p → p.stagingKey ∈ t.pendingProbeSends

namespace Sound

variable {s s' : System} {t t' : LoraLinkTester} {g : ℕ} {l : ProbeLoop} {p : Probe} {pc : LoopPc}

theorem loop (h : Sound settings s) (hl : s.loops.get? g = some l) :
    LoopSound settings s.tester s.probes s.registered g l where
  gen := h.loop_gen g l hl
  running hg := h.loop_running l (hg ▸ hl)
  bound := h.loop_bound g l hl
  in_flight p := h.in_flight g l p hl
  replaying p packet := h.replaying g l p packet hl
  staged hg p := h.staged l p (hg ▸ hl)

/-- It is enough that what is not about the loops is sound, and each loop with it. -/
theorem of_loops (h : Sound settings { s with loops := ∅ })
    (hl : ∀ g l, s.loops.get? g = some l →
      LoopSound settings s.tester s.probes s.registered g l) : Sound settings s :=
  { h with
    loop_gen := fun g l h' => (hl g l h').gen
    loop_running := fun l h' => (hl _ l h').running rfl
    loop_bound := fun g l h' => (hl g l h').bound
    in_flight := fun g l p h' => (hl g l h').in_flight p
    replaying := fun g l p packet h' => (hl g l h').replaying p packet
    staged := fun l p h' => (hl _ l h').staged rfl p }

variable (h : Sound settings s)
include h

theorem unloop : Sound settings { s with loops := ∅ } :=
  { h with
    loop_gen := by simp
    loop_running := by simp
    loop_bound := by simp
    in_flight := by simp
    replaying := by simp
    staged := by simp }

theorem setLoops {loops : Dict ℕ ProbeLoop} (hl : ∀ g l, loops.get? g = some l →
      LoopSound settings s.tester s.probes s.registered g l) : Sound settings { s with loops } :=
  .of_loops h.unloop hl

/-- A loop goes on without giving a probe to the SDK or to its callback. -/
theorem goto (hl : s.loops.get? g = some l) (hb : l.pc.bound ≤ pc.bound)
    (hf : ∀ p, pc.inFlight = some p → l.pc.inFlight = some p)
    (ha : ∀ p, pc.awaited = some p → l.pc.awaited = some p)
    (hr : ∀ p packet, pc = .replaying p packet → l.pc = .replaying p packet) :
    Sound settings (s.goto g l pc) := by
  refine h.setLoops fun g' l' h' => ?_
  rcases System.get?_goto h' with ⟨rfl, rfl⟩ | ⟨-, h'⟩
  · have hold := h.loop hl
    exact ⟨hold.gen, hold.running, fun p hp hg => (hold.bound p hp hg).trans_le hb,
      fun p hp => hold.in_flight p (hf p hp),
      fun p packet hp => hold.replaying p packet (hr p packet hp),
      fun hg p hp => hold.staged hg p (ha p hp)⟩
  · exact h.loop h'

theorem probe_eq {q : Probe} (hp : p ∈ s.probes) (hq : q ∈ s.probes)
    (hid : p.packetId = q.packetId) : p = q :=
  inj_on_of_nodup_map h.ids_nodup hp hq hid

/-- A staging key goes that no loop of the running test waits with. -/
theorem unstage {key : ℕ × ℕ}
    (hk : ∀ l p, s.loops.get? s.tester.testGeneration = some l → l.pc.awaited = some p →
      p.stagingKey ≠ key) :
    Sound settings { s with tester := s.tester.unstage key } :=
  { h with
    staged := fun l p hl hp =>
      mem_filter.2 ⟨h.staged l p hl hp, by simpa using hk l p hl hp⟩
    early := fun key' packet he => by
      rw [LoraLinkTester.unstage, Dict.get?_erase] at he
      split_ifs at he
      exact h.early key' packet he }

end Sound

/-- The step from `t` to `t'` takes the probe `id` from the pending ones, and
    records and counts it. -/
structure Records (settings : Settings) (t t' : LoraLinkTester) (id : ℕ) (r : ProbeResult) :
    Prop where
  pending : t'.pendingProbes = t.pendingProbes.erase id
  history : t'.history = (t.history ++ [r]).drop (t.history.length + 1 - settings.maxHistory)
  total : t'.probesAcked + t'.probesLost = t.probesAcked + t.probesLost + 1
  sent : t'.probesSent = t.probesSent
  active : t'.active = t.active
  generation : t'.testGeneration = t.testGeneration
  running : t'.testRunning = t.testRunning
  sends : t'.pendingProbeSends = t.pendingProbeSends
  early : t'.earlyProbeAcks = t.earlyProbeAcks

theorem recordResponse_records (t : LoraLinkTester) (id : ℕ) (reason : String) (r : ProbeResult) :
    Records settings t (t.recordResponse settings id reason r) id r where
  pending := rfl
  history := rfl
  total := by
    simp only [LoraLinkTester.recordResponse, LoraLinkTester.appendHistory]
    split_ifs <;> omega
  sent := rfl
  active := rfl
  generation := rfl
  running := rfl
  sends := rfl
  early := rfl

theorem loseProbe_records (t : LoraLinkTester) (e : ℕ × PendingProbe) :
    Records settings t (t.loseProbe settings e) e.1 (lostResult e.2) :=
  ⟨rfl, rfl, rfl, rfl, rfl, rfl, rfl, rfl, rfl⟩

namespace Sound

variable {s s' : System} {t' : LoraLinkTester} {g : ℕ} {l : ProbeLoop} {p : Probe} {pc : LoopPc}
  {r : ProbeResult} {e : PendingProbe}

/-- A pending probe is recorded. -/
theorem record (h : Sound settings s) (hp : p ∈ s.probes)
    (he : s.tester.pendingProbes.get? p.packetId = some e)
    (hrec : Records settings s.tester t' p.packetId r)
    (hlate : r.status = .lost → settings.probeTimeout < s.clock - p.sendMono) :
    Sound settings { s with tester := t', log := s.log ++ [(p.packetId, r)] } := by
  have hnew := (h.pending _ _ he).2.1
  refine { h with
    active := hrec.active.trans h.active
    probe_gen := ?_, loop_gen := ?_, loop_running := ?_, staged := ?_, early := ?_
    pending := fun id e' he' => ?_
    log_nodup := ?_
    log_registered := fun e' he' => ?_
    kept := fun q hq hreg hg => ?_
    late := fun q hq r' hr' => ?_ }
  · rw [hrec.generation]
    exact h.probe_gen
  · rw [hrec.generation]
    exact h.loop_gen
  · rw [hrec.generation, hrec.running]
    exact h.loop_running
  · rw [hrec.generation, hrec.sends]
    exact h.staged
  · rw [hrec.early]
    exact h.early
  · rw [hrec.generation]
    rw [hrec.pending, Dict.get?_erase] at he'
    split_ifs at he' with hid
    obtain ⟨hreg, hlog, hprobe⟩ := h.pending id e' he'
    refine ⟨hreg, fun r' hr' => ?_, hprobe⟩
    rcases mem_append.1 hr' with hr' | hr'
    · exact hlog r' hr'
    · exact hid (Prod.mk.inj (mem_singleton.1 hr')).1
  · rw [map_append, nodup_append]
    refine ⟨h.log_nodup, nodup_singleton _, fun id hid id' hid' heq => ?_⟩
    obtain ⟨⟨_, r'⟩, hr', rfl⟩ := List.mem_map.1 hid
    rw [mem_singleton.1 hid'] at heq
    obtain rfl : _ = p.packetId := heq
    exact hnew r' hr'
  · rcases mem_append.1 he' with he' | he'
    · exact h.log_registered e' he'
    · rw [mem_singleton.1 he']
      exact (h.pending _ _ he).1
  · rw [hrec.generation] at hg
    rw [hrec.pending]
    by_cases hid : q.packetId = p.packetId
    · exact .inr ⟨r, by simp [hid]⟩
    · rw [Dict.get?_erase_of_ne hid]
      refine (h.kept q hq hreg hg).imp_right ?_
      rintro ⟨r', hr'⟩
      exact ⟨r', mem_append_left _ hr'⟩
  · rcases mem_append.1 hr' with hr' | hr'
    · exact h.late q hq r' hr'
    · obtain ⟨hid, rfl⟩ := Prod.mk.inj (mem_singleton.1 hr')
      rw [h.probe_eq hq hp hid]
      exact hlate

end Sound

/-! ## Routing responses -/

/-- What `on_response` can do: nothing, keep the response of a probe whose send
    has not returned, or record it. -/
theorem onResponse_cases (settings : Settings) (t : LoraLinkTester) (p : Probe) (packet : PyValue)
    (recvMono : ℚ) :
    t.onResponse settings p packet recvMono = (t, none) ∨
      (t.onResponse settings p packet recvMono =
          ({ t with earlyProbeAcks := t.earlyProbeAcks.set p.stagingKey packet }, none) ∧
        t.earlyProbeAcks.get? p.stagingKey = none) ∨
      ∃ id reason e, parseRoutingResponse settings.upper packet = some (id, reason) ∧
        t.pendingProbes.get? id = some e ∧ t.testRunning = true ∧
        t.onResponse settings p packet recvMono =
          (t.recordResponse settings id reason (responseResult p reason packet recvMono),
            some (id, responseResult p reason packet recvMono)) := by
  rw [LoraLinkTester.onResponse]
  rcases hparse : parseRoutingResponse settings.upper packet with _ | ⟨id, reason⟩
  · exact .inl rfl
  simp only [LoraLinkTester.commitResponse]
  by_cases hstale : t.active = false ∨ t.testGeneration ≠ p.generation ∨ t.testRunning = false
  · rw [if_pos hstale]
    exact .inl rfl
  rw [if_neg hstale]
  push Not at hstale
  rcases he : t.pendingProbes.get? id with _ | e
  · dsimp only
    split_ifs with hkeep
    · exact .inr (.inl ⟨rfl, Option.isNone_iff_eq_none.1 hkeep.2⟩)
    · exact .inl rfl
  · dsimp only
    split_ifs
    · exact .inl rfl
    · exact .inr (.inr ⟨id, reason, e, rfl, he, by simpa using hstale.2.2, rfl⟩)

theorem responseResult_status (p : Probe) (reason : String) (packet : PyValue) (recvMono : ℚ) :
    (responseResult p reason packet recvMono).status ≠ .lost := by
  simp only [responseResult]
  split_ifs <;> decide

variable {packet : PyValue}

/-- A response to a pending probe of the running test is recorded. -/
theorem onResponse_pending {t : LoraLinkTester} (recvMono : ℚ)
    {reason : String} (hactive : t.active = true) (hg : t.testGeneration = p.generation)
    (hrun : t.testRunning = true)
    (hparse : parseRoutingResponse settings.upper packet = some (p.packetId, reason))
    (he : t.pendingProbes.get? p.packetId = some p.pending) :
    t.onResponse settings p packet recvMono =
      (t.recordResponse settings p.packetId reason (responseResult p reason packet recvMono),
        some (p.packetId, responseResult p reason packet recvMono)) := by
  rw [LoraLinkTester.onResponse, hparse]
  simp only [LoraLinkTester.commitResponse]
  rw [if_neg (by simp [hactive, hg, hrun]), he]
  dsimp only
  rw [if_neg (by simp [Probe.pending])]
  rfl

/-- A response to a probe of the running test whose send has not returned is kept. -/
theorem onResponse_staged {t : LoraLinkTester} (recvMono : ℚ)
    {reason : String} (hactive : t.active = true) (hg : t.testGeneration = p.generation)
    (hrun : t.testRunning = true)
    (hparse : parseRoutingResponse settings.upper packet = some (p.packetId, reason))
    (he : t.pendingProbes.get? p.packetId = none) (hk : p.stagingKey ∈ t.pendingProbeSends) :
    ((t.onResponse settings p packet recvMono).1.earlyProbeAcks.get? p.stagingKey).isSome = true := by
  rw [LoraLinkTester.onResponse, hparse]
  simp only [LoraLinkTester.commitResponse]
  rw [if_neg (by simp [hactive, hg, hrun]), he]
  dsimp only
  by_cases hnew : (t.earlyProbeAcks.get? p.stagingKey).isNone = true
  · rw [if_pos ⟨hk, hnew⟩]
    simp
  · rw [if_neg fun hkeep => hnew hkeep.2]
    simpa [Option.isSome_iff_ne_none] using hnew

namespace Sound

variable {s s' : System} {g : ℕ} {l : ProbeLoop} {p : Probe} {packet : PyValue}

variable (h : Sound settings s)
include h

/-- The callback of a probe is called with a response to it, or with what is none. -/
theorem respond (hp : p ∈ s.probes)
    (hid : (parseRoutingResponse settings.upper packet).all (fun r => r.1 = p.packetId) = true)
    (recvMono : ℚ) : Sound settings (s.respond settings p packet recvMono) := by
  rw [System.respond]
  rcases onResponse_cases settings s.tester p packet recvMono with
    heq | ⟨heq, -⟩ | ⟨id, reason, e, hparse, he, -, heq⟩
  · rw [heq]
    simpa using h
  · rcases hparse : parseRoutingResponse settings.upper packet with _ | ⟨id, reason⟩
    · rw [LoraLinkTester.onResponse, hparse]
      simpa using h
    · rw [hparse] at hid
      obtain rfl : id = p.packetId := by simpa using hid
      rw [heq]
      simp only [Option.toList_none, append_nil]
      refine { h with early := fun key packet' hk => ?_ }
      rw [Dict.get?_set] at hk
      split_ifs at hk with hkey
      · cases hk
        exact ⟨p, hp, hkey.symm, reason, hparse⟩
      · exact h.early key packet' hk
  · rw [hparse] at hid
    obtain rfl : id = p.packetId := by simpa using hid
    rw [heq]
    exact h.record hp he (recordResponse_records _ _ _ _) fun hlost =>
      absurd hlost (responseResult_status p reason packet recvMono)

/-- The loop of a test that no longer runs drops its staging key. -/
theorem unstage_goto (hl : s.loops.get? g = some l) {pc : LoopPc}
    (hf : l.pc.inFlight = some p) (hb : pc = .waiting (p.seq + 1) ∨ pc = .failed p.seq)
    (hlb : l.pc.bound = p.seq + 1) :
    Sound settings ({ s with tester := s.tester.unstage p.stagingKey }.goto g l pc) := by
  have hgoto : Sound settings (s.goto g l pc) := by
    rcases hb with rfl | rfl
    · exact h.goto hl (le_of_eq hlb) (fun q hq => by cases hq) (fun q hq => by cases hq)
        fun q packet hq => by cases hq
    · exact h.goto hl (le_of_eq hlb) (fun q hq => by cases hq) (fun q hq => by cases hq)
        fun q packet hq => by cases hq
  refine hgoto.unstage fun l' q hl' hq heq => ?_
  -- A loop that waits with the key is the one that has gone on.
  obtain ⟨-, hpg, -⟩ := h.in_flight g l p hl hf
  obtain ⟨-, hqg, -⟩ := hgoto.in_flight _ l' q hl' (LoopPc.inFlight_of_awaited hq)
  have hg : (s.goto g l pc).tester.testGeneration = g := by
    rw [← hqg, ← hpg]
    exact (Prod.mk.inj heq).1
  rw [hg, System.goto, Dict.get?_set_self] at hl'
  cases hl'
  rcases hb with rfl | rfl <;> cases hq

/-- The send of a probe has returned its packet. -/
theorem register (hl : s.loops.get? g = some l) (hpc : l.pc = .sent p) :
    Sound settings (s.register g l p) := by
  have hf : l.pc.inFlight = some p := by rw [hpc]; rfl
  have hlb : l.pc.bound = p.seq + 1 := by rw [hpc]; rfl
  obtain ⟨hp, hpg, hreg⟩ := h.in_flight g l p hl hf
  rw [System.register]
  by_cases hstale : s.tester.testGeneration ≠ g ∨ s.tester.testRunning = false
  · rw [if_pos hstale]
    exact h.unstage_goto hl hf (.inl rfl) hlb
  rw [if_neg hstale]
  push Not at hstale
  obtain ⟨hgen, -⟩ := hstale
  refine of_loops ?_ fun g' l' h' => ?_
  swap
  · rcases System.get?_goto h' with ⟨rfl, hl'⟩ | ⟨hne, h'⟩
    · have hold := h.loop hl
      refine ⟨hold.gen, hold.running, fun q hq hqg => ?_, fun q hq => ?_, fun q packet hq => ?_,
        fun _ q hq => ?_⟩ <;> rw [hl'] at *
      · rw [LoopPc.afterSend_bound, ← hlb]
        exact hold.bound q hq hqg
      · rw [LoopPc.afterSend_inFlight] at hq
        cases hq
      · obtain ⟨rfl, hearly⟩ := LoopPc.afterSend_replaying hq
        obtain ⟨q', hq', hkey, hans⟩ := h.early _ _ hearly
        rw [h.probe_key q' hq' p hp hkey] at hans
        exact ⟨hp, hpg, mem_cons_self, hans⟩
      · rw [LoopPc.afterSend_awaited] at hq
        cases hq
    · have hold := h.loop h'
      refine { hold with
        in_flight := fun q hq => ?_
        replaying := fun q packet hq => ?_
        staged := fun hg => absurd (hg.trans hgen) hne }
      · obtain ⟨hmem, hqg, hnr⟩ := hold.in_flight q hq
        refine ⟨hmem, hqg, fun hcons => ?_⟩
        rcases mem_cons.1 hcons with hid | hid
        · rw [h.probe_eq hmem hp hid, hpg] at hqg
          exact hne hqg.symm
        · exact hnr hid
      · obtain ⟨hmem, hqg, hreg', hans⟩ := hold.replaying q packet hq
        exact ⟨hmem, hqg, mem_cons_of_mem _ hreg', hans⟩
  refine { h.unloop with
    in_flight := by simp
    replaying := by simp
    staged := by simp
    early := fun key packet he => ?_
    pending := fun id e he => ?_
    registered := fun id hid => ?_
    log_registered := fun e he => mem_cons_of_mem _ (h.log_registered e he)
    kept := fun q hq hreg' hqg => ?_ }
  · change (s.tester.earlyProbeAcks.erase p.stagingKey).get? key = some packet at he
    rw [Dict.get?_erase] at he
    split_ifs at he
    exact h.early key packet he
  · change (s.tester.pendingProbes.set p.packetId p.pending).get? id = some e at he
    rw [Dict.get?_set] at he
    split_ifs at he with hid
    · cases he
      refine ⟨hid ▸ mem_cons_self, fun r hr => ?_, p, hp, hid.symm, hpg.trans hgen.symm, rfl⟩
      exact hreg (hid ▸ h.log_registered _ hr)
    · obtain ⟨hreg', hrest⟩ := h.pending id e he
      exact ⟨mem_cons_of_mem _ hreg', hrest⟩
  · rcases mem_cons.1 hid with rfl | hid
    · exact ⟨p, hp, rfl⟩
    · exact h.registered id hid
  · change (∃ e, (s.tester.pendingProbes.set p.packetId p.pending).get? q.packetId = some e) ∨ _
    rw [Dict.get?_set]
    by_cases hid : q.packetId = p.packetId
    · rw [if_pos hid]
      exact .inl ⟨_, rfl⟩
    · rw [if_neg hid]
      exact h.kept q hq ((mem_cons.1 hreg').resolve_left hid) hqg

/-- A probe is given to the SDK. -/
theorem stage {count : ℤ} {seq packetId : ℕ} {sendMono sendWall : ℚ}
    (hl : s.loops.get? g = some ⟨count, .staging seq sendMono sendWall⟩)
    (hnew : packetId ∉ s.probes.map (·.packetId)) :
    Sound settings (s.stage g ⟨count, .staging seq sendMono sendWall⟩
      ⟨g, seq, sendMono, sendWall, packetId⟩) := by
  set p : Probe := ⟨g, seq, sendMono, sendWall, packetId⟩ with hp
  have hfresh : ∀ q ∈ s.probes, q.packetId ≠ packetId := fun q hq hid =>
    hnew (List.mem_map.2 ⟨q, hq, hid⟩)
  have hbelow : ∀ q ∈ s.probes, q.generation = g → q.seq < seq := h.loop_bound _ _ hl
  have hkey : ∀ q ∈ s.probes, q.stagingKey ≠ p.stagingKey := fun q hq heq =>
    absurd (Prod.mk.inj heq).2 (Nat.ne_of_lt (hbelow q hq (Prod.mk.inj heq).1))
  have hunsent : packetId ∉ s.registered := fun hreg => by
    obtain ⟨q, hq, hid⟩ := h.registered _ hreg
    exact hfresh q hq hid
  have hmore : ∀ {P : Probe → Prop}, (∃ q ∈ s.probes, P q) → ∃ q ∈ p :: s.probes, P q :=
    fun ⟨q, hq, hrest⟩ => ⟨q, mem_cons_of_mem _ hq, hrest⟩
  refine of_loops ?_ fun g' l' h' => ?_
  swap
  · rcases System.get?_goto h' with ⟨rfl, hl'⟩ | ⟨hne, h'⟩
    · have hold := h.loop hl
      refine ⟨hold.gen, hold.running, fun q hq hqg => ?_, fun q hq => ?_, fun q packet hq => ?_,
        fun hg q hq => ?_⟩ <;> rw [hl'] at *
      · rcases mem_cons.1 hq with rfl | hq
        · exact Nat.lt_succ_self seq
        · exact Nat.lt_succ_of_lt (hbelow q hq hqg)
      · cases hq
        exact ⟨mem_cons_self, rfl, hunsent⟩
      · cases hq
      · cases hq
        exact mem_cons_self
    · have hold := h.loop h'
      refine ⟨hold.gen, hold.running, fun q hq hqg => ?_, fun q hq => ?_, fun q packet hq => ?_,
        fun hg q hq => mem_cons_of_mem _ (hold.staged hg q hq)⟩
      · rcases mem_cons.1 hq with rfl | hq
        · exact absurd hqg.symm hne
        · exact hold.bound q hq hqg
      · exact (hold.in_flight q hq).imp_left (mem_cons_of_mem _)
      · exact (hold.replaying q packet hq).imp_left (mem_cons_of_mem _)
  refine { h.unloop with
    ids_nodup := nodup_cons.2 ⟨hnew, h.ids_nodup⟩
    probe_gen := forall_mem_cons.2 ⟨h.loop_gen _ _ hl, h.probe_gen⟩
    probe_key := fun q hq q' hq' heq => ?_
    loop_bound := by simp
    in_flight := by simp
    replaying := by simp
    staged := by simp
    early := fun key packet he => hmore (h.early key packet he)
    pending := fun id e he => (h.pending id e he).imp_right (And.imp_right hmore)
    registered := fun id hid => hmore (h.registered id hid)
    kept := forall_mem_cons.2 ⟨fun hreg => absurd hreg hunsent, h.kept⟩
    late := forall_mem_cons.2
      ⟨fun r hr => absurd (h.log_registered _ hr) hunsent, h.late⟩ }
  rcases mem_cons.1 hq with rfl | hq <;> rcases mem_cons.1 hq' with rfl | hq'
  · rfl
  · exact absurd heq.symm (hkey q' hq')
  · exact absurd heq (hkey q hq)
  · exact h.probe_key q hq q' hq' heq

/-- A new generation begins, with nothing pending: a test is started, or stopped. -/
theorem regenerate {t' : LoraLinkTester} (discarded : ℕ) (ha : t'.active = s.tester.active)
    (hg : t'.testGeneration = s.tester.testGeneration + 1) (hp : t'.pendingProbes = ∅)
    (he : t'.earlyProbeAcks = ∅) :
    Sound settings { s with tester := t', discarded := discarded } :=
  have hnone : ∀ {g : ℕ}, (∃ l, s.loops.get? g = some l) → g ≠ t'.testGeneration :=
    fun ⟨l, hl⟩ heq => by have := h.loop_gen _ l hl; omega
  { h with
    active := ha.trans h.active
    probe_gen := fun p hp => by have := h.probe_gen p hp; dsimp only; omega
    loop_gen := fun g l hl => by have := h.loop_gen g l hl; dsimp only; omega
    loop_running := fun l hl => absurd rfl (hnone ⟨l, hl⟩)
    staged := fun l p hl => absurd rfl (hnone ⟨l, hl⟩)
    early := fun key packet hk => by simp [he] at hk
    pending := fun id e hid => by simp [hp] at hid
    kept := fun p hp _ hpg => by
      have := h.probe_gen p hp
      dsimp only at hpg
      omega }

theorem start {t' : LoraLinkTester} {count : ℤ} (discarded : ℕ) (ha : t'.active = s.tester.active)
    (hg : t'.testGeneration = s.tester.testGeneration + 1) (hp : t'.pendingProbes = ∅)
    (he : t'.earlyProbeAcks = ∅) (hrun : t'.testRunning = true) :
    Sound settings { s with
      tester := t'
      loops := s.loops.set t'.testGeneration ⟨count, .head 0⟩
      discarded := discarded } := by
  have h' := h.regenerate discarded ha hg hp he
  refine h'.setLoops fun g l hl => ?_
  rw [Dict.get?_set] at hl
  split_ifs at hl with hg'
  · cases hl
    refine ⟨hg'.le, fun _ => hrun, fun p hp hpg => ?_, by simp [LoopPc.inFlight], by simp,
      by simp [LoopPc.awaited]⟩
    -- No probe of the new generation has been sent.
    have hle := h.probe_gen p hp
    omega
  · exact h'.loop hl

/-- A probe loop ends, and its test with it if that is still the current one. -/
theorem finishLoop : Sound settings (s.finishLoop g) := by
  have hget : ∀ {g' l'}, (s.loops.erase g).get? g' = some l' → g' ≠ g ∧ s.loops.get? g' = some l' := by
    intro g' l' h'
    rw [Dict.get?_erase] at h'
    split_ifs at h' with hg
    exact ⟨hg, h'⟩
  have hset : Sound settings { s with loops := s.loops.erase g } :=
    h.setLoops fun g' l' h' => h.loop (hget h').2
  rw [System.finishLoop]
  split_ifs with hg
  · exact { hset with loop_running := fun l' h' => absurd hg (hget h').1 }
  · exact hset

end Sound

/-! ## What a step can do -/

/-- One probe that has timed out is recorded. -/
def System.lose (settings : Settings) (s : System) (e : ℕ × PendingProbe) : System :=
  { s with tester := s.tester.loseProbe settings e, log := s.log ++ [(e.1, lostResult e.2)] }

theorem System.foldl_lose (s : System) (l : List (ℕ × PendingProbe)) :
    l.foldl (lose settings) s = { s with
      tester := l.foldl (LoraLinkTester.loseProbe settings) s.tester
      log := s.log ++ l.map fun e => (e.1, lostResult e.2) } := by
  induction l generalizing s with
  | nil => simp
  | cons e l ih =>
    rw [foldl_cons, ih]
    simp [lose]

/-- The steps that move one loop and nothing else: those in which it neither
    gives a probe away nor has one in hand. -/
structure QuietMove (s : System) (g : ℕ) (l : ProbeLoop) (pc : LoopPc) : Prop where
  loop : s.loops.get? g = some l
  bound : l.pc.bound ≤ pc.bound
  in_flight : ∀ p, pc.inFlight = some p → l.pc.inFlight = some p
  awaited : ∀ p, pc.awaited = some p → l.pc.awaited = some p
  source : ∀ p packet, l.pc ≠ .replaying p packet
  target : ∀ p packet, pc ≠ .replaying p packet

/-- What the steps can do, by the parts of the state they change. -/
inductive Change (settings : Settings) (s : System) : Event → System → Prop where
  | move (e : Event) (g : ℕ) (l : ProbeLoop) (pc : LoopPc) (h : QuietMove s g l pc) :
    Change settings s e (s.goto g l pc)
  | drop (e : Event) (g : ℕ) (l : ProbeLoop) (p : Probe) (hl : s.loops.get? g = some l)
    (hpc : l.pc = .unstaging p) : Change settings s e
      ({ s with tester := s.tester.unstage p.stagingKey }.goto g l (.failed p.seq))
  | register (e : Event) (g : ℕ) (l : ProbeLoop) (p : Probe) (hl : s.loops.get? g = some l)
    (hpc : l.pc = .sent p) : Change settings s e (s.register g l p)
  | replay (e : Event) (g : ℕ) (l : ProbeLoop) (p : Probe) (packet : PyValue)
    (hl : s.loops.get? g = some l) (hpc : l.pc = .replaying p packet) :
    Change settings s e ((s.respond settings p packet s.clock).goto g l (.waiting (p.seq + 1)))
  | finish (e : Event) (g : ℕ) (l : ProbeLoop) (hl : s.loops.get? g = some l)
    (hpc : ∀ p packet, l.pc ≠ .replaying p packet) : Change settings s e (s.finishLoop g)
  | stage (e : Event) (g : ℕ) (count : ℤ) (seq packetId : ℕ) (sendMono sendWall : ℚ)
    (hl : s.loops.get? g = some ⟨count, .staging seq sendMono sendWall⟩)
    (hnew : packetId ∉ s.probes.map (·.packetId)) : Change settings s e
      (s.stage g ⟨count, .staging seq sendMono sendWall⟩ ⟨g, seq, sendMono, sendWall, packetId⟩)
  | start (e : Event) (target : String) (count : ℤ) : Change settings s e { s with
      tester := s.tester.beginTest target
      loops := s.loops.set (s.tester.testGeneration + 1) ⟨count, .head 0⟩
      discarded := 0 }
  | stop (e : Event) (hrun : s.tester.testRunning = true) : Change settings s e { s with
      tester := s.tester.stopTest
      discarded := s.discarded + s.tester.pendingProbes.entries.length }
  | clear : Change settings s .clearHistory
      { s with tester := s.tester.clearHistory, discarded := 0 }
  | outside (e : Event) (connected interface : Bool) (elapsed : ℚ) (he : 0 ≤ elapsed)
    (sweep : Option ℚ) (hs : ∀ now, sweep = some now → s.sweep = some now ∨ now = s.clock) :
    Change settings s e { s with
      tester := { s.tester with connected, interface }, clock := s.clock + elapsed, sweep }
  | respond (p : Probe) (packet : PyValue) (recvMono : ℚ) (hp : p ∈ s.probes)
    (hid : (parseRoutingResponse settings.upper packet).all (fun r => r.1 = p.packetId) = true) :
    Change settings s (.respond p packet recvMono) { s.respond settings p packet recvMono with
      answered := if s.inTime settings p packet then p.packetId :: s.answered else s.answered }
  | sweep (now : ℚ) (hnow : s.sweep = some now) : Change settings s .sweep
      { (s.tester.timedOut settings now).foldl (System.lose settings) s with sweep := none }

theorem startTest_ok {t t' : LoraLinkTester} {target count : PyValue} {n : ℤ}
    (h : t.startTest settings target count = .ok (t', n)) :
    ∃ target, t' = t.beginTest target := by
  rw [LoraLinkTester.startTest] at h
  split_ifs at h
  split at h
  · split_ifs at h
    rcases hcount : LoraLinkTester.effectiveCount settings count with _ | n' <;> rw [hcount] at h
    · cases h
    · cases h
      exact ⟨_, rfl⟩
  · cases h

namespace System

variable {s s' : System} {g : ℕ} {l : ProbeLoop} {pc : LoopPc} {e : Event}

theorem change_stepLoop (e : Event) (hl : s.loops.get? g = some l)
    (h : s.stepLoop settings g l = some s') : Change settings s e s' := by
  rw [stepLoop] at h
  have hmove : ∀ pc, l.pc.bound ≤ pc.bound → pc.inFlight = none → pc.awaited = none →
      (∀ p packet, l.pc ≠ .replaying p packet) → (∀ p packet, pc ≠ .replaying p packet) →
      Change settings s e (s.goto g l pc) := fun pc hb hf ha hsrc htgt =>
    .move e g l pc ⟨hl, hb, fun p hp => by simp [hf] at hp, fun p hp => by simp [ha] at hp, hsrc,
      htgt⟩
  rcases hpc : l.pc with seq | seq | seq | ⟨seq, sendMono, sendWall⟩ | p | p | ⟨p, packet⟩ | p |
    seq | seq | seq <;> rw [hpc] at h
  case timing | staging | sending => cases h
  case sent =>
    cases h
    exact .register e g l p hl hpc
  case replaying =>
    cases h
    exact .replay e g l p packet hl hpc
  case unstaging =>
    cases h
    exact .drop e g l p hl hpc
  case finishing =>
    cases h
    exact .finish e g l hl (by simp [hpc])
  case waiting =>
    cases h
    exact hmove _ (by rw [hpc]; exact le_rfl) rfl rfl (by simp [hpc]) (by simp)
  case head | entering | failed =>
    cases h
    refine hmove _ ?_ ?_ ?_ (by simp [hpc]) ?_
    · rw [hpc]
      split_ifs <;> simp [LoopPc.bound]
    all_goals split_ifs <;> simp [LoopPc.inFlight, LoopPc.awaited]

theorem change_none (e : Event) : Change settings s e s := by
  have hout : Change settings s e _ :=
    .outside e s.tester.connected s.tester.interface 0 le_rfl s.sweep fun now hnow => .inl hnow
  rwa [add_zero] at hout

theorem change_of_next (h : s.next settings e = some s') : Change settings s e s' := by
  cases e with
  | startTest target count =>
    rw [next] at h
    split at h
    · cases h
      exact change_none _
    · rename_i tester n hstart
      cases h
      obtain ⟨target', rfl⟩ := startTest_ok hstart
      exact .start _ target' n
  | stopTest =>
    cases h
    cases hrun : s.tester.testRunning with
    | true => exact .stop .stopTest hrun
    | false =>
      have hstop : s.tester.stopTest = s.tester := by rw [LoraLinkTester.stopTest, if_pos hrun]
      rw [hstop]
      exact change_none .stopTest
  | clearHistory =>
    cases h
    exact .clear
  | tick elapsed =>
    rw [next] at h
    split_ifs at h with he
    cases h
    exact .outside _ s.tester.connected s.tester.interface elapsed he s.sweep
      fun now hnow => .inl hnow
  | connection connected interface =>
    cases h
    have hout : Change settings s (.connection connected interface) _ :=
      .outside _ connected interface 0 le_rfl s.sweep fun now hnow => .inl hnow
    rwa [add_zero] at hout
  | loop g =>
    rw [next] at h
    obtain ⟨l, hl, h⟩ := Option.bind_eq_some_iff.1 h
    exact change_stepLoop _ hl h
  | readClock g sendWall =>
    rw [next] at h
    split at h
    · rename_i count seq hl
      cases h
      exact .move _ g _ _ ⟨hl, le_rfl, fun p hp => hp, fun p hp => hp, by simp, by simp⟩
    · cases h
  | send g packetId =>
    rw [next] at h
    split at h
    · rename_i count seq sendMono sendWall hl
      split_ifs at h with hnew
      cases h
      exact .stage _ g count seq packetId sendMono sendWall hl hnew
    · cases h
  | sendReturns g ok =>
    rw [next] at h
    split at h
    · rename_i count p hl
      cases h
      refine .move _ g _ _ ⟨hl, ?_, fun q hq => ?_, fun q hq => ?_, by simp, ?_⟩
      · split_ifs <;> exact le_rfl
      · split_ifs at hq <;> exact hq
      · split_ifs at hq
        · exact hq
        · cases hq
      · split_ifs <;> simp
    · cases h
  | respond p packet recvMono =>
    rw [next] at h
    by_cases hok : p ∈ s.probes ∧
        (parseRoutingResponse settings.upper packet).all (fun r => r.1 = p.packetId) = true
    · rw [if_pos hok] at h
      cases h
      exact .respond p packet recvMono hok.1 hok.2
    · rw [if_neg hok] at h
      cases h
  | beginSweep =>
    rw [next] at h
    split_ifs at h
    cases h
    have hout : Change settings s .beginSweep _ :=
      .outside _ s.tester.connected s.tester.interface 0 le_rfl (some s.clock)
        fun now hnow => .inr (Option.some.inj hnow).symm
    rwa [add_zero] at hout
  | sweep =>
    rw [next] at h
    obtain ⟨now, hnow, rfl⟩ := Option.map_eq_some_iff.1 h
    have hsweep : Change settings s .sweep _ := .sweep now hnow
    rwa [foldl_lose] at hsweep

end System

/-- What every probe that times out in turn keeps holds once all are recorded. -/
theorem System.lose_induction (settings : Settings) (now : ℚ) {I : System → Prop}
    (step : ∀ s e, I s → s.tester.pendingProbes.get? e.1 = some e.2 →
      settings.probeTimeout < now - e.2.sendMono → I (s.lose settings e))
    (h : I s) : I ((s.tester.timedOut settings now).foldl (lose settings) s) := by
  have hrun : ∀ (l : List (ℕ × PendingProbe)) (s : System), I s → (l.map (·.1)).Nodup →
      (∀ e ∈ l, s.tester.pendingProbes.get? e.1 = some e.2 ∧
        settings.probeTimeout < now - e.2.sendMono) → I (l.foldl (lose settings) s) := by
    intro l
    induction l with
    | nil => exact fun s h _ _ => h
    | cons e l ih =>
      intro s h hnodup hl
      rw [map_cons, nodup_cons] at hnodup
      obtain ⟨hpend, hlate⟩ := hl e mem_cons_self
      refine ih (s.lose settings e) (step s e h hpend hlate) hnodup.2 fun e' he' => ?_
      obtain ⟨hpend', hlate'⟩ := hl e' (mem_cons_of_mem _ he')
      refine ⟨?_, hlate'⟩
      -- The other probes are still pending.
      have hne : e'.1 ≠ e.1 := fun heq => hnodup.1 (List.mem_map.2 ⟨e', he', heq⟩)
      exact (Dict.get?_erase_of_ne hne).trans hpend'
  refine hrun _ s h ?_ fun e he => ?_
  · exact s.tester.pendingProbes.nodup.sublist (filter_sublist.map _)
  · obtain ⟨hmem, hlate⟩ := mem_filter.1 he
    exact ⟨Dict.get?_eq_some_iff.2 hmem, (of_decide_eq_true hlate).2⟩

namespace Sound

variable {s s' : System} {e : Event}

theorem lose (h : Sound settings s) {entry : ℕ × PendingProbe} {now : ℚ} (hnow : now ≤ s.clock)
    (he : s.tester.pendingProbes.get? entry.1 = some entry.2)
    (hlate : settings.probeTimeout < now - entry.2.sendMono) : Sound settings (s.lose settings entry) := by
  obtain ⟨id, entry⟩ := entry
  obtain ⟨-, -, p, hp, rfl, -, rfl⟩ := h.pending id entry he
  refine h.record hp he (loseProbe_records _ _) fun _ => ?_
  calc settings.probeTimeout < now - p.sendMono := hlate
    _ ≤ s.clock - p.sendMono := by linarith

theorem change (h : Sound settings s) (hc : Change settings s e s') : Sound settings s' := by
  cases hc with
  | move _ g l pc hq =>
    exact h.goto hq.loop hq.bound hq.in_flight hq.awaited fun p packet hpc =>
      absurd hpc (hq.target p packet)
  | drop _ g l p hl hpc => exact h.unstage_goto hl (by rw [hpc]; rfl) (.inr rfl) (by rw [hpc]; rfl)
  | register _ g l p hl hpc => exact h.register hl hpc
  | replay _ g l p packet hl hpc =>
    obtain ⟨hp, hpg, -, reason, hparse⟩ := h.replaying g l p packet hl hpc
    have hr := h.respond hp (by rw [hparse]; simp) s.clock
    exact hr.goto hl (by rw [hpc]; exact le_rfl) (by simp [LoopPc.inFlight])
      (by simp [LoopPc.awaited]) (by simp)
  | finish _ g l => exact h.finishLoop
  | stage _ g count seq packetId sendMono sendWall hl hnew => exact h.stage hl hnew
  | start _ target count => exact h.start 0 rfl rfl rfl rfl rfl
  | stop _ hrun =>
    have hstop : s.tester.stopTest = { s.tester with
        testStopEvent := true
        testRunning := false
        testGeneration := s.tester.testGeneration + 1
        pendingProbes := ∅
        pendingProbeSends := []
        earlyProbeAcks := ∅ } := by rw [LoraLinkTester.stopTest, if_neg (by simp [hrun])]
    rw [hstop]
    exact h.regenerate _ rfl rfl rfl rfl
  | clear => exact { h with }
  | outside _ connected interface elapsed he sweep hs =>
    refine { h with late := fun p hp r hr hlost => ?_, sweep := fun now hnow => ?_ }
    · have := h.late p hp r hr hlost
      dsimp only
      linarith
    · dsimp only
      rcases hs now hnow with hsome | rfl
      · have := h.sweep now hsome
        linarith
      · linarith
  | respond p packet recvMono hp hid => exact { h.respond hp hid recvMono with }
  | sweep now hnow =>
    have hclock := h.sweep now hnow
    have hfold : Sound settings ((s.tester.timedOut settings now).foldl (.lose settings) s) ∧
        ((s.tester.timedOut settings now).foldl (.lose settings) s).clock = s.clock :=
      System.lose_induction settings now (I := fun s₁ => Sound settings s₁ ∧ s₁.clock = s.clock)
        (fun s₁ e ⟨h₁, hc₁⟩ he hlate => ⟨h₁.lose (hc₁ ▸ hclock) he hlate, hc₁⟩) ⟨h, rfl⟩
    exact { hfold.1 with sweep := fun now hnone => by cases hnone }

end Sound

/-! ## The counters -/

/-- The steps that keep the counters and the records true: the history is
    cleared while no probe is pending, and a sweep does not come between the
    registration of a probe that was answered before and the replay of that
    answer, to find the probe timed out by then. -/
def System.keepsBooks (settings : Settings) (s : System) : Event → Bool
  | .clearHistory => s.tester.pendingProbes.entries.isEmpty
  | .sweep => s.loops.values.all fun l =>
    match l.pc, s.sweep with
    | .replaying p _, some now => now - p.sendMono ≤ settings.probeTimeout
    | _, _ => true
  | _ => true

/-- The step keeps the counters and the records true. -/
def System.KeepsBooks (settings : Settings) (s : System) (e : Event) : Prop :=
  s.keepsBooks settings e = true
deriving Decidable

/-- The counters count the probes, and the history shows the latest records. -/
structure Books (s : System) : Prop where
  count : s.tester.probesSent = s.tester.probesAcked + s.tester.probesLost +
    s.tester.pendingProbes.entries.length + s.discarded
  history : s.tester.history <:+ s.log.map (·.2)
  running : s.tester.testRunning = true → s.discarded = 0

namespace Books

variable {s s' : System} {e : Event} {t' : LoraLinkTester} {id : ℕ} {r : ProbeResult}
  {entry : PendingProbe} {p : Probe}

/-- A pending probe is recorded. -/
theorem record (h : Books s) (he : s.tester.pendingProbes.get? id = some entry)
    (hrec : Records settings s.tester t' id r) :
    Books { s with tester := t', log := s.log ++ [(id, r)] } := by
  refine ⟨?_, ?_, fun hrun => h.running (hrec.running ▸ hrun)⟩
  · have hcount := h.count
    have hlen := Dict.length_erase he
    have htotal := hrec.total
    dsimp only
    rw [hrec.sent, hrec.pending]
    omega
  · dsimp only
    rw [hrec.history, map_append]
    refine (drop_suffix _ _).trans ?_
    obtain ⟨front, hfront⟩ := h.history
    exact ⟨front, by rw [← hfront, append_assoc]; rfl⟩

theorem respond (settings : Settings) (h : Books s) (p : Probe) (packet : PyValue) (recvMono : ℚ) :
    Books (s.respond settings p packet recvMono) := by
  rw [System.respond]
  rcases onResponse_cases settings s.tester p packet recvMono with
    heq | ⟨heq, -⟩ | ⟨id, reason, e, -, he, -, heq⟩ <;> rw [heq]
  · simpa using h
  · simpa using (⟨h.count, h.history, h.running⟩ : Books { s with tester := { s.tester with
      earlyProbeAcks := s.tester.earlyProbeAcks.set p.stagingKey packet } })
  · exact h.record he (recordResponse_records _ _ _ _)

theorem register {g : ℕ} {l : ProbeLoop} (h : Books s)
    (hnone : s.tester.pendingProbes.get? p.packetId = none) : Books (s.register g l p) := by
  rw [System.register]
  split_ifs
  · exact ⟨h.count, h.history, h.running⟩
  · refine ⟨?_, h.history, h.running⟩
    change s.tester.probesSent + 1 = s.tester.probesAcked + s.tester.probesLost +
      (s.tester.pendingProbes.set p.packetId p.pending).entries.length + s.discarded
    have := h.count
    rw [Dict.length_set_of_none hnone]
    omega

/-- A step that keeps the books keeps them true. -/
theorem change (hs : Sound settings s) (h : Books s) (hok : s.KeepsBooks settings e)
    (hc : Change settings s e s') : Books s' := by
  cases hc with
  | move | drop | stage | outside => exact ⟨h.count, h.history, h.running⟩
  | register _ g l p hl hpc =>
    refine h.register ?_
    by_contra hne
    obtain ⟨entry, he⟩ := Option.ne_none_iff_exists'.1 hne
    exact (hs.in_flight g l p hl (by rw [hpc]; rfl)).2.2 (hs.pending _ _ he).1
  | replay _ g l p packet =>
    have := h.respond settings p packet s.clock
    exact ⟨this.count, this.history, this.running⟩
  | finish _ g l =>
    rw [System.finishLoop]
    split_ifs
    · exact ⟨h.count, h.history, fun hrun => by cases hrun⟩
    · exact ⟨h.count, h.history, h.running⟩
  | start => exact ⟨rfl, h.history, fun _ => rfl⟩
  | stop _ hrun =>
    rw [LoraLinkTester.stopTest, if_neg (by simp [hrun])]
    have := h.count
    refine ⟨?_, h.history, fun hrun => by cases hrun⟩
    change s.tester.probesSent = s.tester.probesAcked + s.tester.probesLost + 0 +
      (s.discarded + s.tester.pendingProbes.entries.length)
    omega
  | clear =>
    have hnone : s.tester.pendingProbes.entries = [] := List.isEmpty_iff.1 hok
    refine ⟨?_, nil_suffix, fun _ => rfl⟩
    change 0 = 0 + 0 + s.tester.pendingProbes.entries.length + 0
    rw [hnone]
    rfl
  | respond p packet recvMono hp hid =>
    have := h.respond settings p packet recvMono
    exact ⟨this.count, this.history, this.running⟩
  | sweep now hnow =>
    have hfold : Books ((s.tester.timedOut settings now).foldl (.lose settings) s) :=
      System.lose_induction settings now (fun s₁ e h₁ he _ => h₁.record he (loseProbe_records _ e)) h
    exact ⟨hfold.count, hfold.history, hfold.running⟩

end Books

/-! ## The probes that are answered in time -/

/-- The response to `p` is kept for the return of its send, or handed to its
    callback again, or recorded. -/
def Settled (s : System) (p : Probe) : Prop :=
  (p.packetId ∉ s.registered ∧ ∀ l, s.loops.get? p.generation = some l → l.pc.awaited = some p →
      (s.tester.earlyProbeAcks.get? p.stagingKey).isSome = true) ∨
    (∃ l packet, s.loops.get? p.generation = some l ∧ l.pc = .replaying p packet) ∨
    ∃ r, (p.packetId, r) ∈ s.log

/-- No probe that was answered in time is recorded as lost, and as long as its
    test is the current one its response is not forgotten. -/
def Answered (s : System) : Prop :=
  ∀ id ∈ s.answered, ∃ p ∈ s.probes, p.packetId = id ∧
    (∀ r, (id, r) ∈ s.log → r.status ≠ .lost) ∧
    (p.generation = s.tester.testGeneration → Settled s p)

/-- A probe that is pending is only settled by the replay of its response. -/
theorem Settled.of_pending {entry : PendingProbe} (hs : Sound settings s)
    (h : Settled s p) (he : s.tester.pendingProbes.get? p.packetId = some entry) :
    ∃ l packet, s.loops.get? p.generation = some l ∧ l.pc = .replaying p packet := by
  obtain ⟨hreg, hlog, -⟩ := hs.pending _ _ he
  rcases h with ⟨hno, -⟩ | hreplay | ⟨r, hr⟩
  · exact absurd hreg hno
  · exact hreplay
  · exact absurd hr (hlog r)

namespace Settled

variable {s s' : System} {p q : Probe} {g : ℕ} {l : ProbeLoop} {pc : LoopPc} {packet : PyValue}

/-- A loop that does not replay the response to `q` is not the one that does. -/
theorem ne_of_replaying {l' : ProbeLoop} (hl : s.loops.get? g = some l)
    (hsrc : ∀ packet, l.pc ≠ .replaying q packet) (hl' : s.loops.get? q.generation = some l')
    (hpc : l'.pc = .replaying q packet) : q.generation ≠ g := by
  rintro rfl
  rw [hl] at hl'
  cases hl'
  exact hsrc packet hpc

/-- A loop goes on that was not about to replay a response. -/
theorem goto (h : Settled s q) (hl : s.loops.get? g = some l)
    (hf : ∀ p, pc.awaited = some p → l.pc.awaited = some p)
    (hsrc : ∀ packet, l.pc ≠ .replaying q packet) : Settled (s.goto g l pc) q := by
  rcases h with ⟨hreg, hearly⟩ | ⟨l', packet, hl', hpc⟩ | hlog
  · refine .inl ⟨hreg, fun l' hl' hq => ?_⟩
    rcases System.get?_goto hl' with ⟨hg, hl''⟩ | ⟨-, hl'⟩
    · exact hearly l (hg ▸ hl) (hf q (hl'' ▸ hq))
    · exact hearly l' hl' hq
  · have hne := ne_of_replaying hl hsrc hl' hpc
    exact .inr (.inl ⟨l', packet, (Dict.get?_set_of_ne hne).trans hl', hpc⟩)
  · exact .inr (.inr hlog)

/-- A staging key goes that no loop waits with. -/
theorem unstage (h : Settled s q) (hkey : q.stagingKey = p.stagingKey → q = p)
    (hno : ∀ l, s.loops.get? p.generation = some l → l.pc.awaited ≠ some p) :
    Settled { s with tester := s.tester.unstage p.stagingKey } q := by
  rcases h with ⟨hreg, hearly⟩ | hreplay | hlog
  · refine .inl ⟨hreg, fun l hl hq' => ?_⟩
    have hne : q.stagingKey ≠ p.stagingKey := fun heq => by
      obtain rfl := hkey heq
      exact hno l hl hq'
    rw [LoraLinkTester.unstage, Dict.get?_erase_of_ne hne]
    exact hearly l hl hq'
  · exact .inr (.inl hreplay)
  · exact .inr (.inr hlog)

/-- The send of a probe is counted: a response that was kept for it is replayed. -/
theorem register (hs : Sound settings s) (h : Settled s q) (hq : q ∈ s.probes)
    (hl : s.loops.get? g = some l) (hpc : l.pc = .sent p)
    (hcurrent : s.tester.testGeneration = g ∧ s.tester.testRunning = true) :
    Settled (s.register g l p) q := by
  have hf : l.pc.inFlight = some p := by rw [hpc]; rfl
  obtain ⟨hp, hpg, -⟩ := hs.in_flight g l p hl hf
  rw [System.register, if_neg (by simp [hcurrent])]
  rcases h with ⟨hreg, hearly⟩ | ⟨l', packet, hl', hpc'⟩ | hlog
  · by_cases hqp : q = p
    · -- The response to this very probe.
      subst hqp
      obtain ⟨packet, hpacket⟩ := Option.isSome_iff_exists.1
        (hearly l (hpg ▸ hl) (by rw [hpc]; rfl))
      refine .inr (.inl ⟨⟨l.count, .replaying q packet⟩, packet, ?_, rfl⟩)
      rw [hpacket, System.goto, hpg]
      exact Dict.get?_set_self
    · have hid : q.packetId ≠ p.packetId := fun hid => hqp (hs.probe_eq hq hp hid)
      refine .inl ⟨fun hmem => ?_, fun l' hl' hq' => ?_⟩
      · exact (mem_cons.1 hmem).elim hid hreg
      · rcases System.get?_goto hl' with ⟨-, hl''⟩ | ⟨-, hl'⟩
        · rw [hl'', LoopPc.afterSend_awaited] at hq'
          cases hq'
        · have hne : q.stagingKey ≠ p.stagingKey := fun heq => hqp (hs.probe_key q hq p hp heq)
          change ((s.tester.earlyProbeAcks.erase p.stagingKey).get? q.stagingKey).isSome = true
          rw [Dict.get?_erase_of_ne hne]
          exact hearly l' hl' hq'
  · have hne := ne_of_replaying hl (by simp [hpc]) hl' hpc'
    exact .inr (.inl ⟨l', packet, (Dict.get?_set_of_ne hne).trans hl', hpc'⟩)
  · exact .inr (.inr hlog)

/-- Another probe is given to the SDK. -/
theorem stage (h : Settled s q) (hl : s.loops.get? g = some l)
    (hsrc : ∀ p packet, l.pc ≠ .replaying p packet) (hne : q ≠ p) : Settled (s.stage g l p) q := by
  rcases h with ⟨hreg, hearly⟩ | ⟨l', packet, hl', hpc⟩ | hlog
  · refine .inl ⟨hreg, fun l' hl' hq => ?_⟩
    rcases System.get?_goto hl' with ⟨-, hl''⟩ | ⟨-, hl'⟩
    · rw [hl''] at hq
      exact absurd (Option.some.inj hq).symm hne
    · exact hearly l' hl' hq
  · have hneg := ne_of_replaying hl (hsrc q) hl' hpc
    exact .inr (.inl ⟨l', packet, (Dict.get?_set_of_ne hneg).trans hl', hpc⟩)
  · exact .inr (.inr hlog)

/-- A probe loop ends. -/
theorem finishLoop (h : Settled s q) (hl : s.loops.get? g = some l)
    (hsrc : ∀ p packet, l.pc ≠ .replaying p packet) : Settled (s.finishLoop g) q := by
  have hget : ∀ {g' l'}, (s.loops.erase g).get? g' = some l' → s.loops.get? g' = some l' := by
    intro g' l' h'
    rw [Dict.get?_erase] at h'
    split_ifs at h'
    exact h'
  rcases h with ⟨hreg, hearly⟩ | ⟨l', packet, hl', hpc⟩ | hlog
  · refine .inl ⟨hreg, fun l' hl' hq => ?_⟩
    have := hearly l' (hget hl') hq
    rw [System.finishLoop]
    split_ifs <;> exact this
  · have hne := ne_of_replaying hl (hsrc q) hl' hpc
    exact .inr (.inl ⟨l', packet, (Dict.get?_erase_of_ne hne).trans hl', hpc⟩)
  · exact .inr (.inr hlog)

/-- The tester changes, but keeps the early responses, and the log may grow. -/
theorem grow (h : Settled s q) (hreg : s'.registered = s.registered) (hloops : s'.loops = s.loops)
    (hearly : ∀ key, (s.tester.earlyProbeAcks.get? key).isSome = true →
      (s'.tester.earlyProbeAcks.get? key).isSome = true)
    (hlog : ∀ e ∈ s.log, e ∈ s'.log) : Settled s' q := by
  rcases h with ⟨hno, hkept⟩ | ⟨l, packet, hl, hpc⟩ | ⟨r, hr⟩
  · refine .inl ⟨by rwa [hreg], fun l hl hq => hearly _ (hkept l ?_ hq)⟩
    rwa [hloops] at hl
  · exact .inr (.inl ⟨l, packet, by rwa [hloops], hpc⟩)
  · exact .inr (.inr ⟨r, hlog _ hr⟩)

end Settled

/-- What a callback leaves as it is, and what it may add. -/
theorem respond_frame (settings : Settings) (s : System) (p : Probe) (packet : PyValue)
    (recvMono : ℚ) :
    (s.respond settings p packet recvMono).registered = s.registered ∧
      (s.respond settings p packet recvMono).loops = s.loops ∧
      (s.respond settings p packet recvMono).tester.testGeneration = s.tester.testGeneration ∧
      (∀ key, (s.tester.earlyProbeAcks.get? key).isSome = true →
        ((s.respond settings p packet recvMono).tester.earlyProbeAcks.get? key).isSome = true) ∧
      (∀ e ∈ s.log, e ∈ (s.respond settings p packet recvMono).log) ∧
      (∀ e ∈ (s.respond settings p packet recvMono).log, e ∈ s.log ∨ e.2.status ≠ .lost) := by
  rw [System.respond]
  rcases onResponse_cases settings s.tester p packet recvMono with
    heq | ⟨heq, -⟩ | ⟨id, reason, e, -, -, -, heq⟩ <;> rw [heq]
  · simp +contextual
  · refine ⟨rfl, rfl, rfl, fun key hkey => ?_, by simp, by simp +contextual⟩
    dsimp only
    rw [Dict.get?_set]
    split_ifs
    · rfl
    · exact hkey
  · refine ⟨rfl, rfl, rfl, fun _ hkey => hkey, by simp +contextual, fun e he => ?_⟩
    rcases mem_append.1 he with he | he
    · exact .inl he
    · obtain rfl := mem_singleton.1 he
      exact .inr (responseResult_status p reason packet recvMono)

/-- The staging key of a probe goes with the loop that gave it to the SDK. -/
theorem Settled.unstage_goto {q : Probe} {g : ℕ} {l : ProbeLoop} {pc : LoopPc}
    (hs : Sound settings s) (h : Settled s q) (hq : q ∈ s.probes) (hl : s.loops.get? g = some l)
    (hf : l.pc.inFlight = some p) (ha : pc.awaited = none)
    (hsrc : ∀ packet, l.pc ≠ .replaying q packet) :
    Settled ({ s with tester := s.tester.unstage p.stagingKey }.goto g l pc) q := by
  obtain ⟨hp, hpg, -⟩ := hs.in_flight g l p hl hf
  have hgoto : Settled (s.goto g l pc) q := h.goto hl (by simp [ha]) hsrc
  refine hgoto.unstage (fun heq => hs.probe_key q hq p hp heq) fun l' hl' hp' => ?_
  rcases System.get?_goto hl' with ⟨-, hpc⟩ | ⟨hne, -⟩
  · rw [hpc, ha] at hp'
    cases hp'
  · exact hne hpg

/-- The response that a loop replays is recorded. -/
theorem Settled.replay {g : ℕ} {l : ProbeLoop}
    (hs : Sound settings s) (hl : s.loops.get? g = some l) (hpc : l.pc = .replaying p packet)
    (hcurrent : p.generation = s.tester.testGeneration) (recvMono : ℚ) :
    ∃ r, (p.packetId, r) ∈ (s.respond settings p packet recvMono).log := by
  obtain ⟨hp, hpg, hreg, reason, hparse⟩ := hs.replaying g l p packet hl hpc
  have hrun : s.tester.testRunning = true := hs.loop_running l (by rw [← hcurrent, hpg]; exact hl)
  rcases hs.kept p hp hreg hcurrent with ⟨entry, he⟩ | ⟨r, hr⟩
  · obtain ⟨-, -, q, hq, hid, -, rfl⟩ := hs.pending _ _ he
    obtain rfl := hs.probe_eq hq hp hid
    refine ⟨responseResult q reason packet recvMono, ?_⟩
    rw [System.respond, onResponse_pending recvMono hs.active hcurrent.symm hrun hparse he]
    simp
  · exact ⟨r, (respond_frame settings s p packet recvMono).2.2.2.2.1 _ hr⟩

/-- A response in time settles its probe. -/
theorem Settled.respond (hs : Sound settings s) (hp : p ∈ s.probes)
    (hid : (parseRoutingResponse settings.upper packet).all (fun r => r.1 = p.packetId) = true)
    (hin : s.inTime settings p packet = true) (recvMono : ℚ) :
    (∀ r, (p.packetId, r) ∈ (s.respond settings p packet recvMono).log → r.status ≠ .lost) ∧
      Settled (s.respond settings p packet recvMono) p := by
  simp only [System.inTime, Bool.and_eq_true, decide_eq_true_eq] at hin
  obtain ⟨⟨⟨hsome, hrun⟩, hcurrent⟩, hage⟩ := hin
  obtain ⟨⟨id, reason⟩, hparse⟩ := Option.isSome_iff_exists.1 hsome
  rw [hparse] at hid
  obtain rfl : id = p.packetId := by simpa using hid
  obtain ⟨hreg', hloops', -, -, hgrow, hnew⟩ := respond_frame settings s p packet recvMono
  refine ⟨fun r hr hlost => ?_, ?_⟩
  · -- A record of a loss would be of a probe older than the timeout.
    rcases hnew _ hr with hold | hne
    · have := hs.late p hp r hold hlost
      linarith
    · exact hne hlost
  by_cases hreg : p.packetId ∈ s.registered
  · rcases hs.kept p hp hreg hcurrent.symm with ⟨entry, he⟩ | ⟨r, hr⟩
    · obtain ⟨-, -, q, hq, hid, -, rfl⟩ := hs.pending _ _ he
      obtain rfl := hs.probe_eq hq hp hid
      refine .inr (.inr ⟨responseResult q reason packet recvMono, ?_⟩)
      rw [System.respond, onResponse_pending recvMono hs.active hcurrent hrun hparse he]
      simp
    · exact .inr (.inr ⟨r, hgrow _ hr⟩)
  · refine .inl ⟨by rwa [hreg'], fun l hl hawait => ?_⟩
    rw [hloops', ← hcurrent] at hl
    have hnone : s.tester.pendingProbes.get? p.packetId = none := by
      by_contra hne
      obtain ⟨entry, he⟩ := Option.ne_none_iff_exists'.1 hne
      exact hreg (hs.pending _ _ he).1
    exact onResponse_staged recvMono hs.active hcurrent hrun hparse hnone (hs.staged l p hl hawait)

namespace Answered

variable {s s' : System} {e : Event}

/-- A step that leaves the answered probes, their records and the test alone. -/
theorem of_settled (h : Answered s) (hids : s'.answered = s.answered)
    (hprobes : ∀ p ∈ s.probes, p ∈ s'.probes)
    (hlog : ∀ e ∈ s'.log, e ∈ s.log ∨ e.2.status ≠ .lost)
    (hsettled : ∀ p ∈ s.probes, p.packetId ∈ s.answered →
      p.generation = s'.tester.testGeneration → p.generation = s.tester.testGeneration ∧
        (Settled s p → Settled s' p)) : Answered s' := by
  intro id hid
  rw [hids] at hid
  obtain ⟨p, hp, rfl, hlost, hkept⟩ := h id hid
  refine ⟨p, hprobes p hp, rfl, fun r hr => ?_, fun hg => ?_⟩
  · exact (hlog _ hr).elim (hlost r) id
  · obtain ⟨hg', hs⟩ := hsettled p hp hid hg
    exact hs (hkept hg')

theorem lose {entry : ℕ × PendingProbe} (hs : Sound settings s) (h : Answered s)
    (he : s.tester.pendingProbes.get? entry.1 = some entry.2)
    (hno : ∀ l p packet, s.loops.get? p.generation = some l → l.pc = .replaying p packet →
      entry.2 ≠ p.pending) :
    Answered (s.lose settings entry) := by
  obtain ⟨id, entry⟩ := entry
  obtain ⟨-, -, p, hp, rfl, hpg, rfl⟩ := hs.pending id entry he
  -- An answered probe that is pending is being replayed.
  have hnot : p.packetId ∉ s.answered := fun hid => by
    obtain ⟨q, hq, hqid, -, hkept⟩ := h _ hid
    obtain rfl := hs.probe_eq hq hp hqid
    obtain ⟨l, packet, hl, hpc⟩ := (hkept hpg).of_pending hs he
    exact hno l q packet hl hpc rfl
  intro id hid
  obtain ⟨q, hq, rfl, hlost, hkept⟩ := h id hid
  refine ⟨q, hq, rfl, fun r hr => ?_, fun hg => ?_⟩
  · rcases mem_append.1 hr with hr | hr
    · exact hlost r hr
    · have heq : q.packetId = p.packetId := (Prod.mk.inj (mem_singleton.1 hr)).1
      rw [heq] at hid
      exact absurd hid hnot
  · exact (hkept hg).grow rfl rfl (fun _ hk => hk) fun e he => mem_append_left _ he

/-- A step that keeps the books never records an answered probe as lost. -/
theorem change (hs : Sound settings s) (h : Answered s) (hok : s.KeepsBooks settings e)
    (hc : Change settings s e s') : Answered s' := by
  cases hc with
  | move _ g l pc hq =>
    exact h.of_settled rfl (fun _ hp => hp) (fun _ he => .inl he) fun p _ _ hg =>
      ⟨hg, fun hset => hset.goto hq.loop hq.awaited (hq.source p)⟩
  | drop _ g l p hl hpc =>
    exact h.of_settled rfl (fun _ hp => hp) (fun _ he => .inl he) fun q hq _ hg =>
      ⟨hg, fun hset => hset.unstage_goto hs hq hl (by rw [hpc]; rfl) rfl (by simp [hpc])⟩
  | register _ g l p hl hpc =>
    by_cases hstale : s.tester.testGeneration ≠ g ∨ s.tester.testRunning = false
    · rw [System.register, if_pos hstale]
      exact h.of_settled rfl (fun _ hp => hp) (fun _ he => .inl he) fun q hq _ hg =>
        ⟨hg, fun hset => hset.unstage_goto hs hq hl (by rw [hpc]; rfl) rfl (by simp [hpc])⟩
    · push Not at hstale
      have hcurrent : s.tester.testGeneration = g ∧ s.tester.testRunning = true :=
        ⟨hstale.1, by simpa using hstale.2⟩
      have hframe : (s.register g l p).answered = s.answered ∧
          (s.register g l p).probes = s.probes ∧ (s.register g l p).log = s.log ∧
          (s.register g l p).tester.testGeneration = s.tester.testGeneration := by
        rw [System.register, if_neg (by simp [hcurrent])]
        exact ⟨rfl, rfl, rfl, rfl⟩
      obtain ⟨hids, hprobes, hlog, hgen⟩ := hframe
      refine h.of_settled hids (fun _ hp => by rwa [hprobes])
        (fun _ he => .inl (by rwa [hlog] at he)) fun q hq _ hg => ?_
      exact ⟨hg.trans hgen, fun hset => hset.register hs hq hl hpc hcurrent⟩
  | replay _ g l p packet hl hpc =>
    obtain ⟨hreg, hloops, hgen, hearly, hgrow, hnew⟩ := respond_frame settings s p packet s.clock
    refine h.of_settled rfl (fun _ hp => hp) hnew fun q hq _ hg => ⟨hg.trans hgen, fun hset => ?_⟩
    by_cases hqp : q = p
    · subst hqp
      exact .inr (.inr (Settled.replay hs hl hpc (hg.trans hgen) s.clock))
    · refine (hset.grow hreg hloops hearly hgrow).goto (hloops ▸ hl) (by simp [LoopPc.awaited]) ?_
      intro packet' hpc'
      rw [hpc] at hpc'
      exact hqp (LoopPc.replaying.inj hpc').1.symm
  | finish _ g l hl hpc =>
    have hgen : (s.finishLoop g).tester.testGeneration = s.tester.testGeneration := by
      rw [System.finishLoop]
      split_ifs <;> rfl
    exact h.of_settled rfl (fun _ hp => hp) (fun _ he => .inl he) fun q _ _ hg =>
      ⟨hg.trans hgen, fun hset => hset.finishLoop hl hpc⟩
  | stage _ g count seq packetId sendMono sendWall hl hnew =>
    refine h.of_settled rfl (fun _ hp => mem_cons_of_mem _ hp) (fun _ he => .inl he)
      fun q hq _ hg => ⟨hg, fun hset => hset.stage hl (by simp) ?_⟩
    rintro rfl
    exact hnew (List.mem_map.2 ⟨_, hq, rfl⟩)
  | start _ target count =>
    refine h.of_settled rfl (fun _ hp => hp) (fun _ he => .inl he) fun q hq _ hg => ?_
    have hle := hs.probe_gen q hq
    have hgen : q.generation = s.tester.testGeneration + 1 := hg
    omega
  | stop _ hrun =>
    refine h.of_settled rfl (fun _ hp => hp) (fun _ he => .inl he) fun q hq _ hg => ?_
    have hle := hs.probe_gen q hq
    have hgen : q.generation = s.tester.testGeneration + 1 := by
      rw [LoraLinkTester.stopTest, if_neg (by simp [hrun])] at hg
      exact hg
    omega
  | clear | outside =>
    exact h.of_settled rfl (fun _ hp => hp) (fun _ he => .inl he) fun q _ _ hg =>
      ⟨hg, fun hset => hset.grow rfl rfl (fun _ hk => hk) fun _ he => he⟩
  | respond p packet recvMono hp hid =>
    obtain ⟨hreg, hloops, hgen, hearly, hgrow, hnew⟩ := respond_frame settings s p packet recvMono
    have hold : Answered (s.respond settings p packet recvMono) :=
      h.of_settled rfl (fun _ hp => hp) hnew fun q _ _ hg =>
        ⟨hg.trans hgen, fun hset => hset.grow hreg hloops hearly hgrow⟩
    intro id hmem
    dsimp only at hmem
    split_ifs at hmem with hin
    · rcases mem_cons.1 hmem with rfl | hmem
      · obtain ⟨hlost, hset⟩ := Settled.respond hs hp hid hin recvMono
        exact ⟨p, hp, rfl, hlost, fun _ => hset⟩
      · exact hold id hmem
    · exact hold id hmem
  | sweep now hnow =>
    have hprompt : ∀ l p packet, s.loops.get? p.generation = some l → l.pc = .replaying p packet →
        now - p.sendMono ≤ settings.probeTimeout := by
      intro l p packet hl hpc
      have := List.all_eq_true.1 hok l (List.mem_map.2 ⟨_, Dict.get?_eq_some_iff.1 hl, rfl⟩)
      rw [hpc, hnow] at this
      simpa using this
    have hclock := hs.sweep now hnow
    have hfold := System.lose_induction settings now
      (I := fun s₁ => Sound settings s₁ ∧ Answered s₁ ∧ s₁.clock = s.clock ∧ s₁.loops = s.loops)
      (fun s₁ e ⟨hs₁, h₁, hc₁, hl₁⟩ he hlate => by
        refine ⟨hs₁.lose (hc₁ ▸ hclock) he hlate, h₁.lose hs₁ he fun l p packet hl hpc heq => ?_,
          hc₁, hl₁⟩
        rw [heq] at hlate
        exact absurd (hprompt l p packet (hl₁ ▸ hl) hpc) (not_le.2 hlate)) ⟨hs, h, rfl, rfl⟩
    exact hfold.2.1.of_settled rfl (fun _ hp => hp) (fun _ he => .inl he) fun q _ _ hg =>
      ⟨hg, fun hset => hset.grow rfl rfl (fun _ hk => hk) fun _ he => he⟩

end Answered

/-! ## Runs -/

namespace System

variable {s : System}

theorem good_of_reach (h : (transition settings).Reach (KeepsBooks settings) s) :
    Sound settings s ∧ Books s ∧ Answered s := by
  refine h.induction (I := fun s => Sound settings s ∧ Books s ∧ Answered s) (fun s hs => ?_)
    fun s e s' hgood hok hstep => ?_
  · obtain rfl : s = {} := hs
    refine ⟨?_, ⟨rfl, nil_suffix, fun _ => rfl⟩, by simp [Answered]⟩
    constructor <;> simp [Dict.get?_empty]
  · obtain ⟨hs, hb, ha⟩ := hgood
    have hc := change_of_next hstep
    exact ⟨hs.change hc, .change hs hb hok hc, Answered.change hs ha hok hc⟩

/-- The counters of a test agree with its pending probes, apart from those
    pending when `stop_test` ended it; every probe has at most one record, of
    which the history shows the latest ones; and a probe that was answered in
    time is never recorded as lost, but, its test being the current one, as
    answered once its send has returned and no replay is due. -/
theorem probe_outcomes (h : (transition settings).Reach (KeepsBooks settings) s) :
    s.tester.probesSent = s.tester.probesAcked + s.tester.probesLost +
        s.tester.pendingProbes.entries.length + s.discarded ∧
      (s.tester.testRunning = true → s.discarded = 0) ∧
      ((s.log.map (·.1)).Nodup ∧ s.tester.history <:+ s.log.map (·.2) ∧
        ∀ id r, (id, r) ∈ s.log → s.tester.pendingProbes.get? id = none) ∧
      ∀ p ∈ s.probes, p.packetId ∈ s.answered →
        (∀ r, (p.packetId, r) ∈ s.log → r.status ≠ .lost) ∧
        (p.generation = s.tester.testGeneration → p.packetId ∈ s.registered →
          (∀ l packet, s.loops.get? p.generation = some l → l.pc ≠ .replaying p packet) →
          ∃ r, (p.packetId, r) ∈ s.log) := by
  obtain ⟨hs, hb, ha⟩ := good_of_reach h
  refine ⟨hb.count, hb.running, ⟨hs.log_nodup, hb.history, fun id r hr => ?_⟩, fun p hp hid => ?_⟩
  · by_contra hne
    obtain ⟨entry, he⟩ := Option.ne_none_iff_exists'.1 hne
    exact (hs.pending id entry he).2.1 r hr
  · obtain ⟨q, hq, hqid, hlost, hkept⟩ := ha _ hid
    obtain rfl := hs.probe_eq hq hp hqid
    refine ⟨hlost, fun hg hreg hno => ?_⟩
    rcases hkept hg with ⟨hnot, -⟩ | ⟨l, packet, hl, hpc⟩ | hlog
    · exact absurd hreg hnot
    · exact absurd hpc (hno l packet hl)
    · exact hlog

/-- In every run, a probe that is recorded as lost had its time, and one record. -/
theorem lost_late (h : (transition settings).Reachable s) {p : Probe} (hp : p ∈ s.probes)
    {r : ProbeResult} (hr : (p.packetId, r) ∈ s.log) (hlost : r.status = .lost) :
    settings.probeTimeout < s.clock - p.sendMono ∧ s.tester.pendingProbes.get? p.packetId = none ∧
      ∀ r', (p.packetId, r') ∈ s.log → r' = r := by
  have hs : Sound settings s := by
    refine h.induction (fun s hs => ?_) fun s e s' hs _ hstep => hs.change (change_of_next hstep)
    obtain rfl : s = {} := hs
    constructor <;> simp [Dict.get?_empty]
  refine ⟨hs.late p hp r hr hlost, ?_, fun r' hr' => ?_⟩
  · by_contra hne
    obtain ⟨e, he⟩ := Option.ne_none_iff_exists'.1 hne
    exact (hs.pending _ e he).2.1 r hr
  · exact congrArg Prod.snd (inj_on_of_nodup_map hs.log_nodup hr' hr rfl)

/-- A test of one probe is started, and its probe given to the SDK. -/
def sendRun : List Event :=
  [.connection true true, .startTest (.str "!0a1b2c3d") (.int 1), .loop 1, .loop 1,
    .readClock 1 0, .send 1 77]

/-- The send of the probe returns, and is counted. -/
def registerRun : List Event := sendRun ++ [.sendReturns 1 true, .loop 1]

/-- The probe that is sent. -/
def firstProbe : Probe := ⟨1, 0, 0, 0, 77⟩

/-- The acknowledgement of the probe. -/
def acknowledgement : PyValue :=
  .dict [("decoded", .dict [("portnum", .str "ROUTING_APP"), ("requestId", .int 77),
    ("routing", .dict [])])]

/-- The acknowledgement comes after the send. -/
def acknowledgedRun : List Event := registerRun ++ [.respond firstProbe acknowledgement 0]

theorem probe_outcomes_acknowledged : ∃ s : System,
    (transition {}).Reach (KeepsBooks {}) s ∧ s.tester.probesSent = 1 ∧
      s.tester.probesSent = s.tester.probesAcked + s.tester.probesLost +
        s.tester.pendingProbes.entries.length + s.discarded ∧
      ∃ r, (77, r) ∈ s.log := by
  obtain ⟨s, hs, hsent, hp, hid, hg, hreg, hwait⟩ : ∃ s ∈ acknowledgedRun.foldlM
      (fun s e => if KeepsBooks {} s e then next {} s e else none) ({} : System),
        s.tester.probesSent = 1 ∧ firstProbe ∈ s.probes ∧ 77 ∈ s.answered ∧
          s.tester.testGeneration = 1 ∧ 77 ∈ s.registered ∧
          (s.loops.get? 1).all (fun l : ProbeLoop =>
            match l.pc with
            | .waiting _ => true
            | _ => false) = true := by
    decide +kernel
  have hreach : (transition {}).Reach (KeepsBooks {}) s :=
    .foldlM (.init rfl) hs
  obtain ⟨hcount, -, -, hanswered⟩ := probe_outcomes hreach
  refine ⟨s, hreach, hsent, hcount, (hanswered firstProbe hp hid).2 hg.symm hreg ?_⟩
  intro l packet hl hpc
  change s.loops.get? 1 = some l at hl
  rw [hl, Option.all_some, hpc] at hwait
  cases hwait

/-- The loop of the test has ended fifteen seconds after its probe was sent. -/
def endedRun : List Event := registerRun ++ [.loop 1, .loop 1, .loop 1, .tick 15]

/-- Twenty seconds later comes a sweep. -/
def sweepRun : List Event := [.tick 20, .beginSweep, .sweep]

theorem lost_late_swept : ∃ s : System, (transition {}).Reachable s ∧
    (∃ r, (77, r) ∈ s.log ∧ r.status = .lost) ∧ s.tester.pendingProbes.get? 77 = none := by
  obtain ⟨s, hs, hp, ⟨id, r⟩, hr, hid, hlost⟩ : ∃ s ∈ (endedRun ++ sweepRun).foldlM (next {})
      ({} : System), firstProbe ∈ s.probes ∧ ∃ e ∈ s.log, e.1 = 77 ∧ e.2.status = .lost := by
    decide +kernel
  cases hid
  have hreach : (transition {}).Reachable s := .foldlM (.init rfl) hs
  exact ⟨s, hreach, ⟨r, hr, hlost⟩, (lost_late hreach hp hr hlost).2.1⟩

/-- The response comes before the send returns, and a sweep before it is replayed. -/
def overtakenRun : List Event :=
  sendRun ++ [.respond firstProbe acknowledgement 0, .sendReturns 1 true, .tick 15, .loop 1] ++
    sweepRun

/-- `stop_test` and `clear_history` leave counters that do not agree with the
    pending probes; and a probe to which a response came in time is recorded as
    lost when its loop had ended before, or when the response had come before the
    send returned and a sweep comes before it is replayed. -/
theorem probe_outcomes_fail :
    (∃ s : System, (transition {}).Reachable s ∧ s.tester.pendingProbes.entries = [] ∧
      s.tester.probesSent ≠ s.tester.probesAcked + s.tester.probesLost) ∧
    (∃ s : System, (transition {}).Reachable s ∧ s.tester.testRunning = true ∧
      s.tester.probesSent ≠ s.tester.probesAcked + s.tester.probesLost +
        s.tester.pendingProbes.entries.length) ∧
    (∃ before after s : System, (transition {}).Reachable before ∧ firstProbe ∈ before.probes ∧
      before.clock = 15 ∧
      before.next {} (.respond firstProbe acknowledgement 15) = some after ∧
      sweepRun.foldlM (next {}) after = some s ∧ s.tester.testGeneration = 1 ∧
      s.log.any (fun e => e.1 = 77 ∧ e.2.status = .lost) = true) ∧
    ∃ s : System, (transition {}).Reachable s ∧ 77 ∈ s.answered ∧ s.tester.testGeneration = 1 ∧
      s.log.any (fun e => e.1 = 77 ∧ e.2.status = .lost) = true := by
  refine ⟨?_, ?_, ?_, ?_⟩
  · obtain ⟨s, hs, hnone, hne⟩ :
        ∃ s ∈ (registerRun ++ [Event.stopTest]).foldlM (next {}) ({} : System),
          s.tester.pendingProbes.entries.isEmpty = true ∧
            s.tester.probesSent ≠ s.tester.probesAcked + s.tester.probesLost := by
      decide +kernel
    exact ⟨s, .foldlM (.init rfl) hs, List.isEmpty_iff.1 hnone,
      hne⟩
  · obtain ⟨s, hs, hend⟩ :
        ∃ s ∈ (registerRun ++ [Event.clearHistory]).foldlM (next {}) ({} : System),
          s.tester.testRunning = true ∧ s.tester.probesSent ≠
            s.tester.probesAcked + s.tester.probesLost + s.tester.pendingProbes.entries.length := by
      decide +kernel
    exact ⟨s, .foldlM (.init rfl) hs, hend⟩
  · obtain ⟨before, hbefore, hp, hclock, after, hafter, s, hs, hend⟩ :
        ∃ before ∈ endedRun.foldlM (next {}) ({} : System),
        firstProbe ∈ before.probes ∧ before.clock = 15 ∧
          ∃ after ∈ before.next {} (.respond firstProbe acknowledgement 15),
            ∃ s ∈ sweepRun.foldlM (next {}) after, s.tester.testGeneration = 1 ∧
              s.log.any (fun e => e.1 = 77 ∧ e.2.status = .lost) = true := by
      decide +kernel
    exact ⟨before, after, s, .foldlM (.init rfl) hbefore, hp,
      hclock, hafter, hs, hend⟩
  · obtain ⟨s, hs, hend⟩ : ∃ s ∈ overtakenRun.foldlM (next {}) ({} : System),
        77 ∈ s.answered ∧ s.tester.testGeneration = 1 ∧
          s.log.any (fun e => e.1 = 77 ∧ e.2.status = .lost) = true := by
      decide +kernel
    exact ⟨s, .foldlM (.init rfl) hs, hend⟩

end System

end ReticulumPi.Link
