import Mathlib.Tactic.SplitIfs
import ReticulumPi.Meshcore.Observer

/-!
# Every captured packet is counted

A packet that the observer captures is in its queue, in the hands of one of its
threads, or counted as published or as failed. This holds along every run in
which no step loses count (`KeepsCount`): the queue has not been emptied
between a `put_nowait` that found it full and the `get_nowait` that makes room,
the connection is up when a packet is about to be published, and has the same
owner still when its success is counted (`packets_accounted`).
-/

namespace ReticulumPi.Meshcore

open List

variable {α : Type}

/-- The packets that are queued or counted as failed, and not yet as captured. -/
def RxPc.uncaptured : RxPc α → ℕ
  | counting => 1
  | _ => 0

/-- The packets taken out of a full queue that nothing counts yet. -/
def RxPc.trimmedOff : RxPc α → ℕ
  | trimmed _ => 1
  | _ => 0

namespace Observer

variable {o o' : Observer α}

/-- Two states with the same queue and the same counters. -/
structure SameBooks (o o' : Observer α) : Prop where
  size : o'.packetQueueSize = o.packetQueueSize
  queue : o'.packetQueue = o.packetQueue
  captured : o'.packetsCaptured = o.packetsCaptured
  published : o'.packetsPublished = o.packetsPublished
  failed : o'.packetsFailed = o.packetsFailed

theorem SameBooks.refl (o : Observer α) : o.SameBooks o := ⟨rfl, rfl, rfl, rfl, rfl⟩

theorem detachMqtt_books (o : Observer α) : o.SameBooks o.detachMqtt := ⟨rfl, rfl, rfl, rfl, rfl⟩

theorem attachMqtt_books {client : ℕ} (h : o.attachMqtt client = some o') : o.SameBooks o' := by
  rw [attachMqtt] at h
  split_ifs at h
  cases h
  exact ⟨rfl, rfl, rfl, rfl, rfl⟩

theorem closeMqttCandidate_books (o : Observer α) (client generation : ℕ) :
    o.SameBooks (o.closeMqttCandidate client generation) := by
  rw [closeMqttCandidate]
  split_ifs
  · exact o.detachMqtt_books
  · exact .refl o

theorem onDisconnect_books (o : Observer α) (client generation : ℕ) :
    o.SameBooks (o.onDisconnect client generation) := by
  rw [onDisconnect]
  split_ifs
  · exact ⟨rfl, rfl, rfl, rfl, rfl⟩
  · exact .refl o

theorem queueFull_iff : o.queueFull = true ↔
    0 < o.packetQueueSize ∧ o.packetQueueSize ≤ o.packetQueue.length := by
  simp [queueFull]

end Observer

namespace ObserverSystem

variable {s s' : ObserverSystem α} {e : ObserverEvent α}

/-- The steps that do not lose count: `_handle_rx_log` that found the queue
    full finds something in it to take out, a packet is published while the
    connection is up, and counted while the connection has the same owner. -/
def keepsCount (s : ObserverSystem α) : ObserverEvent α → Bool
  | .resumeRxLog =>
    match s.rx with
    | .full _ => !s.observer.packetQueue.isEmpty
    | _ => true
  | .publishPacket => s.observer.mqttPublishSnapshot.isSome
  | .count =>
    match s.mqtt with
    | .published client generation => s.observer.mqttClientIsCurrent client generation true
    | _ => true
  | _ => true

/-- The step does not lose count. -/
def KeepsCount (s : ObserverSystem α) (e : ObserverEvent α) : Prop := s.keepsCount e = true
deriving Decidable

/-- Every packet captured is queued, in the hands of a thread, or counted; and
    the queue keeps to its size. -/
structure Balanced (s : ObserverSystem α) : Prop where
  balance : s.observer.packetsCaptured + s.rx.uncaptured =
    s.observer.packetsPublished + s.observer.packetsFailed + s.observer.packetQueue.length +
      s.rx.trimmedOff + s.mqtt.inHand
  bound : 0 < s.observer.packetQueueSize →
    (s.observer.packetQueue.length : ℤ) ≤ s.observer.packetQueueSize
  room : s.rx.trimmedOff = 1 → s.observer.queueFull = false

/-- A step that leaves queue and counters alone and takes no packet in hand. -/
theorem Balanced.of_books (h : s.Balanced) (hb : s.observer.SameBooks s'.observer)
    (hrx : s'.rx = s.rx) (hm : s'.mqtt.inHand = s.mqtt.inHand) : s'.Balanced := by
  refine ⟨?_, ?_, ?_⟩
  · rw [hrx, hm, hb.captured, hb.published, hb.failed, hb.queue]
    exact h.balance
  · rw [hb.size, hb.queue]
    exact h.bound
  · rw [hrx, Observer.queueFull, hb.size, hb.queue]
    exact h.room

/-- The steps of `_handle_rx_log`. -/
theorem Balanced.handleRxLog (h : s.Balanced) (hrx : s.rx = .idle) (packet : Option α) :
    Balanced { s with
      observer := (s.observer.handleRxLog packet).1, rx := (s.observer.handleRxLog packet).2 } := by
  obtain ⟨hbal, hbound, hroom⟩ := h
  rw [hrx] at hbal hroom
  rcases packet with _ | packet
  · exact ⟨hbal, hbound, hroom⟩
  rw [Observer.handleRxLog, Observer.putNowait]
  by_cases hfull : s.observer.queueFull = true
  · rw [if_pos hfull]
    exact ⟨hbal, hbound, fun ht => by cases ht⟩
  · rw [if_neg hfull]
    rw [Observer.queueFull_iff] at hfull
    refine ⟨?_, ?_, fun ht => by cases ht⟩
    · simp only [RxPc.uncaptured, RxPc.trimmedOff, length_append, length_singleton]
        at hbal ⊢
      omega
    · simp only [length_append, length_singleton]
      intro hpos
      push_cast
      have := fun hle => hfull ⟨hpos, hle⟩
      omega

theorem Balanced.resumeRxLog (h : s.Balanced) (hok : s.KeepsCount .resumeRxLog) :
    Balanced { s with
      observer := (s.observer.resumeRxLog s.rx).1, rx := (s.observer.resumeRxLog s.rx).2 } := by
  obtain ⟨hbal, hbound, hroom⟩ := h
  rw [KeepsCount, keepsCount] at hok
  rcases hrx : s.rx with _ | packet | packet | _ | _ <;> rw [hrx] at hbal hroom hok
  case idle => exact ⟨hbal, hbound, hroom⟩
  case full =>
    -- Something is taken out, so that there is room.
    rcases hq : s.observer.packetQueue with _ | ⟨oldest, rest⟩
    · rw [hq] at hok
      cases hok
    rw [Observer.resumeRxLog, Observer.getNowait, hq]
    rw [hq, length_cons] at hbal hbound
    simp only [RxPc.uncaptured, RxPc.trimmedOff, Option.map_some, Option.getD_some] at hbal ⊢
    refine ⟨?_, ?_, fun _ => ?_⟩
    · simp only [RxPc.uncaptured, RxPc.trimmedOff]
      omega
    · intro hpos
      have := hbound hpos
      push_cast at this
      dsimp only
      omega
    · rw [Bool.eq_false_iff, Ne, Observer.queueFull_iff]
      rintro ⟨hpos, hle⟩
      have := hbound hpos
      push_cast at this
      dsimp only at hle
      omega
  case trimmed =>
    have hfull := hroom rfl
    rw [Observer.resumeRxLog, Observer.putNowait, hfull]
    have hnot : ¬ (0 < s.observer.packetQueueSize ∧
        s.observer.packetQueueSize ≤ s.observer.packetQueue.length) := by
      rw [← Observer.queueFull_iff, hfull]
      simp
    simp only [RxPc.uncaptured, RxPc.trimmedOff] at hbal
    refine ⟨?_, ?_, fun ht => by cases ht⟩
    · simp only [RxPc.uncaptured, RxPc.trimmedOff, Bool.false_eq_true, if_false, Option.getD_some,
        length_append, length_singleton]
      omega
    · simp only [Bool.false_eq_true, if_false, Option.getD_some, length_append,
        length_singleton]
      intro hpos
      push_cast
      have := fun hle => hnot ⟨hpos, hle⟩
      omega
  case overflowed =>
    rw [Observer.resumeRxLog]
    simp only [RxPc.uncaptured, RxPc.trimmedOff] at hbal
    refine ⟨?_, hbound, fun ht => by cases ht⟩
    simp only [RxPc.uncaptured, RxPc.trimmedOff]
    omega
  case counting =>
    rw [Observer.resumeRxLog]
    simp only [RxPc.uncaptured, RxPc.trimmedOff] at hbal
    refine ⟨?_, hbound, fun ht => by cases ht⟩
    simp only [RxPc.uncaptured, RxPc.trimmedOff]
    omega

/-- The publishing loop takes a packet in hand, or nothing. -/
theorem Balanced.take (h : s.Balanced) (hm : s.mqtt = .waiting) : s.take.Balanced := by
  obtain ⟨hbal, hbound, hroom⟩ := h
  rw [hm] at hbal
  rw [ObserverSystem.take, Observer.getNowait]
  rcases hq : s.observer.packetQueue with _ | ⟨packet, rest⟩
  · rw [hq] at hbal
    exact ⟨by rw [hq]; exact hbal, hbound, hroom⟩
  rw [hq, length_cons] at hbal hbound
  simp only [MqttPc.inHand] at hbal
  refine ⟨?_, ?_, fun ht => ?_⟩
  · simp only [MqttPc.inHand]
    omega
  · intro hpos
    have := hbound hpos
    push_cast at this
    dsimp only
    omega
  · have hfull := hroom ht
    rw [Bool.eq_false_iff, Ne, Observer.queueFull_iff, hq, length_cons] at hfull
    rw [Bool.eq_false_iff, Ne, Observer.queueFull_iff]
    rintro ⟨hpos, hle⟩
    refine hfull ⟨hpos, ?_⟩
    push_cast
    dsimp only at hle
    omega

/-- A packet is published while the connection is up, and stays in hand. -/
theorem publishPacket_inHand {packet : α} (h : s.observer.mqttPublishSnapshot.isSome = true) :
    (s.observer.publishPacket packet).inHand = 1 := by
  obtain ⟨⟨client, generation⟩, hsnap⟩ := Option.isSome_iff_exists.1 h
  rw [Observer.publishPacket, hsnap]
  rfl

/-- A success is counted. -/
theorem Balanced.countPublished (h : s.Balanced) {client generation : ℕ}
    (hm : s.mqtt = .published client generation)
    (hok : s.observer.mqttClientIsCurrent client generation true = true) :
    Balanced { s with
      observer := s.observer.countPublished client generation, mqtt := .checking } := by
  obtain ⟨hbal, hbound, hroom⟩ := h
  rw [hm] at hbal
  rw [Observer.countPublished, if_pos hok]
  simp only [MqttPc.inHand] at hbal
  refine ⟨?_, hbound, hroom⟩
  simp only [MqttPc.inHand]
  omega

/-- A failure is counted. -/
theorem Balanced.countFailed (h : s.Balanced) (hm : s.mqtt = .failing) :
    Balanced { s with observer := s.observer.countFailed, mqtt := .checking } := by
  obtain ⟨hbal, hbound, hroom⟩ := h
  rw [hm] at hbal
  simp only [MqttPc.inHand] at hbal
  refine ⟨?_, hbound, hroom⟩
  simp only [MqttPc.inHand, Observer.countFailed]
  omega

theorem Balanced.check (h : s.Balanced) (hm : s.mqtt = .checking) {lost expiring : Bool}
    (hs : s.check lost expiring = some s') : s'.Balanced := by
  rw [ObserverSystem.check] at hs
  split_ifs at hs
  · cases hs
    exact h.of_books s.observer.detachMqtt_books rfl (by rw [hm]; rfl)
  · cases hs
    exact h.of_books (.refl _) rfl (by rw [hm]; rfl)

/-- The steps of `_connect_mqtt`. -/
theorem Balanced.connect (h : s.Balanced) {ok : Bool}
    (he : e = .setUp ok ∨ e = .settle ok) (hs : s.next e = some s') : s'.Balanced := by
  rcases he with rfl | rfl <;> rw [next] at hs
  · split at hs
    · rename_i hm
      split_ifs at hs
      · cases hs
        exact h.of_books (.refl _) rfl (by rw [hm]; rfl)
      · split at hs
        · rename_i observer hattach
          cases hs
          exact h.of_books (Observer.attachMqtt_books hattach) rfl (by rw [hm]; rfl)
        · cases hs
          exact h.of_books (.refl _) rfl (by rw [hm]; rfl)
    · cases hs
  · split at hs
    · rename_i client generation hm
      split_ifs at hs
      · cases hs
        exact h.of_books (.refl _) rfl (by rw [hm]; rfl)
      · cases hs
        exact h.of_books (s.observer.closeMqttCandidate_books client generation) rfl
          (by rw [hm]; rfl)
    · cases hs

/-- A step that does not lose count keeps the balance. -/
theorem Balanced.step (h : s.Balanced) (hok : s.KeepsCount e) (hs : s.next e = some s') :
    s'.Balanced := by
  cases e with
  | received packet =>
    rw [next] at hs
    split at hs
    · rename_i hrx
      cases hs
      exact h.handleRxLog hrx packet
    · cases hs
  | resumeRxLog =>
    rw [next] at hs
    split at hs
    · cases hs
    · cases hs
      exact h.resumeRxLog hok
  | setUp ok => exact h.connect (.inl rfl) hs
  | settle ok => exact h.connect (.inr rfl) hs
  | turn internet | drain | publishReturns result =>
    rw [next] at hs
    split at hs
    · rename_i hm
      cases hs
      refine h.of_books (.refl _) rfl ?_
      rw [hm]
      split_ifs <;> rfl
    · cases hs
  | take =>
    rw [next] at hs
    split at hs
    · rename_i hm
      cases hs
      exact h.take hm
    · cases hs
  | publishPacket =>
    rw [next] at hs
    split at hs
    · rename_i packet hm
      cases hs
      refine h.of_books (.refl _) rfl ?_
      rw [hm]
      exact publishPacket_inHand hok
    · cases hs
  | count =>
    rw [KeepsCount, keepsCount] at hok
    rw [next] at hs
    split at hs
    · rename_i hm
      rw [hm] at hok
      cases hs
      exact h.countPublished hm hok
    · rename_i hm
      cases hs
      exact h.countFailed hm
    · cases hs
  | check lost expiring =>
    rw [next] at hs
    split at hs
    · rename_i hm
      exact h.check hm hs
    · cases hs
  | disconnected =>
    rw [next] at hs
    split at hs
    · rename_i hm
      cases hs
      exact h.of_books ⟨rfl, rfl, rfl, rfl, rfl⟩ rfl (by rw [hm]; rfl)
    · cases hs
  | onDisconnect client generation =>
    rw [next] at hs
    split_ifs at hs
    cases hs
    exact h.of_books (s.observer.onDisconnect_books client generation) rfl rfl
  | connack _ _ | markConnected | abandonConnack | stop | stopDetach | stopClear =>
    rw [next] at hs
    split_ifs at hs
    cases hs
    exact h.of_books ⟨rfl, rfl, rfl, rfl, rfl⟩ rfl rfl

theorem balanced {packetQueueSize : ℤ} (h : (transition α packetQueueSize).Reach KeepsCount s) :
    s.Balanced := by
  refine h.induction (fun s hs => ?_) fun s e s' hs hok hstep => hs.step hok hstep
  obtain rfl : s = _ := hs
  exact ⟨rfl, fun hpos => Int.le_of_lt hpos, fun ht => by cases ht⟩

/-- As long as no step loses count, every captured packet is published, failed
    or still in the queue, whenever none is in the hands of a thread. -/
theorem packets_accounted {packetQueueSize : ℤ}
    (h : (transition α packetQueueSize).Reach KeepsCount s) (hfree : s.HandsFree) :
    s.observer.packetsCaptured = s.observer.packetsPublished + s.observer.packetsFailed +
      s.observer.packetQueue.length := by
  have hbal := (balanced h).balance
  rw [hfree.1, hfree.2] at hbal
  simpa [RxPc.uncaptured, RxPc.trimmedOff] using hbal

/-- The observer connects. -/
def connectRun : List (ObserverEvent String) :=
  [.turn true, .setUp true, .connack 0 1, .markConnected, .settle true]

/-- A packet comes in, and the publishing loop takes it. -/
def captureRun : List (ObserverEvent String) :=
  connectRun ++ [.received (some "cafe"), .resumeRxLog, .drain, .take]

/-- The packet is published. -/
def publishedRun : List (ObserverEvent String) :=
  captureRun ++ [.publishPacket, .publishReturns .success, .count]

/-- The connection is lost before the packet is published. -/
def lostRun : List (ObserverEvent String) := captureRun ++ [.onDisconnect 0 1, .publishPacket]

theorem packets_accounted_published : ∃ s : ObserverSystem String,
    (transition String 1000).Reach KeepsCount s ∧ s.observer.packetsCaptured = 1 ∧
      s.observer.packetsCaptured = s.observer.packetsPublished + s.observer.packetsFailed +
        s.observer.packetQueue.length := by
  obtain ⟨s, hs, hrx, hm, hcap⟩ : ∃ s ∈ publishedRun.foldlM
        (fun s e => if KeepsCount s e then next s e else none)
        { observer := { packetQueueSize := 1000 } },
        s.rx = .idle ∧ s.mqtt.inHand = 0 ∧ s.observer.packetsCaptured = 1 := by
    decide +kernel
  have hreach : (transition String 1000).Reach KeepsCount s :=
    .foldlM (.init rfl) hs
  exact ⟨s, hreach, hcap, packets_accounted hreach ⟨hrx, hm⟩⟩

/-- A packet taken from the queue before the connection is lost is not counted. -/
theorem packets_accounted_fails_disconnected : ∃ s : ObserverSystem String,
    (transition String 1000).Reachable s ∧ s.HandsFree ∧
      s.observer.packetsCaptured ≠ s.observer.packetsPublished + s.observer.packetsFailed +
        s.observer.packetQueue.length := by
  obtain ⟨s, hs, hrx, hm, hne⟩ :
      ∃ s ∈ lostRun.foldlM next { observer := { packetQueueSize := 1000 } },
        s.rx = .idle ∧ s.mqtt.inHand = 0 ∧
          s.observer.packetsCaptured ≠ s.observer.packetsPublished +
            s.observer.packetsFailed + s.observer.packetQueue.length := by
    decide +kernel
  exact ⟨s, .foldlM (.init rfl) hs, ⟨hrx, hm⟩, hne⟩

end ObserverSystem

end ReticulumPi.Meshcore
