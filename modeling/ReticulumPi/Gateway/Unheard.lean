import ReticulumPi.Gateway.Forward
import ReticulumPi.Lib.Purge

/-!
# Senders that are not on the list

A message from a sender that is not on the allow list is never forwarded or
queued. But it takes the slot of the rate limit if it comes while there is one,
before the list is looked at, and an allowed message after it then has to wait
(`unheard_delays`). If none does, the allowed messages are treated as if it
were the only ones (`unheard`).
-/

namespace ReticulumPi.Gateway

variable {config : Config} {g g' : Forwarder}

namespace Forwarder

/-- Apart from the number of messages that came too early, the states are the same. -/
def Same (g g' : Forwarder) : Prop := ∃ n, g' = { g with msgsRateLimited := n }

theorem Same.refl (g : Forwarder) : Same g g := ⟨g.msgsRateLimited, rfl⟩

theorem Same.trans {g'' : Forwarder} (h : Same g g') (h' : Same g' g'') : Same g g'' := by
  obtain ⟨n, rfl⟩ := h
  obtain ⟨n', rfl⟩ := h'
  exact ⟨n', rfl⟩

/-- The results of a step are the same, apart from that. -/
def SameResult {α : Type} (p p' : Forwarder × α) : Prop := p.2 = p'.2 ∧ Same p.1 p'.1

variable (h : Same g g')
include h

theorem Same.checkSendRateLimit (config : Config) (now : ℚ) :
    (g.checkSendRateLimit config now).1 = (g'.checkSendRateLimit config now).1 ∧
      Same (g.checkSendRateLimit config now).2 (g'.checkSendRateLimit config now).2 := by
  obtain ⟨n, rfl⟩ := h
  rw [Forwarder.checkSendRateLimit, Forwarder.checkSendRateLimit]
  split_ifs
  · exact ⟨rfl, n, rfl⟩
  · exact ⟨rfl, n, rfl⟩
  · exact ⟨rfl, n + 1, rfl⟩

theorem Same.iface : g'.iface = g.iface := by
  obtain ⟨n, rfl⟩ := h
  rfl

theorem Same.countSent (now : ℚ) : Same (g.countSent now) (g'.countSent now) := by
  obtain ⟨n, rfl⟩ := h
  exact ⟨n, rfl⟩

theorem Same.setQueue (queue : List Item) :
    Same { g with sendQueue := queue } { g' with sendQueue := queue } := by
  obtain ⟨n, rfl⟩ := h
  exact ⟨n, rfl⟩

theorem Same.enqueueLxmfSend (message : Message) (now : ℚ) :
    SameResult (g.enqueueLxmfSend config message now) (g'.enqueueLxmfSend config message now) := by
  obtain ⟨n, rfl⟩ := h
  rw [Forwarder.enqueueLxmfSend, Forwarder.enqueueLxmfSend]
  cases message.content with
  | none => exact ⟨rfl, n, rfl⟩
  | some content =>
    dsimp only
    split_ifs
    · exact ⟨rfl, n, rfl⟩
    · cases g.sendQueue <;> exact ⟨rfl, n, rfl⟩
    · exact ⟨rfl, n, rfl⟩

theorem Same.handleLxmfMessage (message : Message) (now later : ℚ) (result : CommandResult) :
    SameResult (g.handleLxmfMessage config message now later result)
      (g'.handleLxmfMessage config message now later result) := by
  have hactive : g'.active = g.active := by
    obtain ⟨n, rfl⟩ := h
    rfl
  rw [Forwarder.handleLxmfMessage, Forwarder.handleLxmfMessage, hactive]
  by_cases hinactive : (!g.active) = true
  · rw [if_pos hinactive, if_pos hinactive]
    exact ⟨rfl, h⟩
  rw [if_neg hinactive, if_neg hinactive]
  obtain ⟨hallowed, h₁⟩ := h.checkSendRateLimit config now
  generalize g.checkSendRateLimit config now = p at hallowed h₁
  generalize g'.checkSendRateLimit config now = p' at hallowed h₁
  obtain ⟨allowed, g₁⟩ := p
  obtain ⟨_, g₁'⟩ := p'
  obtain rfl : allowed = _ := hallowed
  cases allowed with
  | false => exact h₁.enqueueLxmfSend message later
  | true =>
    cases message.content with
    | none => exact ⟨rfl, h₁⟩
    | some content =>
      dsimp only at h₁ ⊢
      by_cases hlist : (!config.allows message) = true
      · rw [if_pos hlist, if_pos hlist]
        exact ⟨rfl, h₁⟩
      · rw [if_neg hlist, if_neg hlist, h₁.iface]
        cases g₁.iface with
        | none => exact ⟨rfl, h₁⟩
        | some iface =>
          refine ⟨rfl, ?_⟩
          dsimp only
          split_ifs
          · exact h₁.countSent later
          · exact h₁

omit h

theorem Same.drainFrom (env : Drain) (k : ℕ) (queue : List Item) (h : Same g g') :
    SameResult (g.drainFrom config env k queue) (g'.drainFrom config env k queue) := by
  induction queue generalizing k g g' with
  | nil => exact ⟨rfl, h.setQueue []⟩
  | cons item queue ih =>
    rw [Forwarder.drainFrom, Forwarder.drainFrom]
    by_cases hexpired : config.sendQueueTtl < env.times (3 * k) - item.enqueuedAt
    · rw [if_pos hexpired, if_pos hexpired]
      obtain ⟨hactions, h'⟩ := ih (k + 1) h
      exact ⟨congrArg (.expired item :: ·) hactions, h'⟩
    rw [if_neg hexpired, if_neg hexpired]
    obtain ⟨hallowed, h₁⟩ := h.checkSendRateLimit config (env.times (3 * k + 1))
    generalize g.checkSendRateLimit config (env.times (3 * k + 1)) = p at hallowed h₁
    generalize g'.checkSendRateLimit config (env.times (3 * k + 1)) = p' at hallowed h₁
    obtain ⟨allowed, g₁⟩ := p
    obtain ⟨_, g₁'⟩ := p'
    obtain rfl : allowed = _ := hallowed
    dsimp only at h₁
    cases allowed with
    | false => exact ⟨rfl, h₁.setQueue _⟩
    | true =>
      dsimp only
      rw [h₁.iface]
      cases g₁.iface with
      | none => exact ⟨rfl, h₁.setQueue _⟩
      | some iface =>
        dsimp only
        by_cases hsucceeded : (env.results k).succeeded = true
        · rw [if_pos hsucceeded, if_pos hsucceeded]
          obtain ⟨hactions, h'⟩ := ih (k + 1) (h₁.countSent (env.times (3 * k + 2)))
          exact ⟨congrArg (.handed iface item.text item.channel :: ·) hactions, h'⟩
        rw [if_neg hsucceeded, if_neg hsucceeded]
        split_ifs
        all_goals exact ⟨rfl, h₁.setQueue _⟩

/-- States that are the same take the same step. -/
theorem Same.step (h : Same g g') (e : Event) : SameResult (g.step config e) (g'.step config e) := by
  cases e with
  | message message now later result => exact h.handleLxmfMessage message now later result
  | drain env =>
    have hqueue : g'.sendQueue = g.sendQueue := by
      obtain ⟨n, rfl⟩ := h
      rfl
    rw [Forwarder.step, Forwarder.step, drainSendQueue, drainSendQueue, hqueue]
    exact h.drainFrom env 0 g.sendQueue
  | interfaces connected meshInterface serialListener | activate active =>
    obtain ⟨n, rfl⟩ := h
    exact ⟨rfl, n, rfl⟩

/-- The step is not one at which a message comes in from a sender that is not on the list. -/
def heard (config : Config) : Event → Bool
  | .message message _ _ _ => config.allows message
  | .drain _ | .interfaces _ _ _ | .activate _ => true

/-- A message from a sender that is not on the list finds no slot of the rate limit that it could
    take: messages come too early, if there is a limit at all. -/
def Untaken (config : Config) (g : Forwarder) : Event → Prop
  | .message message now _ _ => config.allows message = true ∨ g.active = false ∨
      config.sendMinInterval ≤ 0 ∨ now - g.lastSendTime < config.sendMinInterval
  | .drain _ | .interfaces _ _ _ | .activate _ => True

instance (g : Forwarder) : (e : Event) → Decidable (g.Untaken config e)
  | .message _ _ _ _ => inferInstanceAs (Decidable (_ ∨ _))
  | .drain _ => inferInstanceAs (Decidable True)
  | .interfaces _ _ _ => inferInstanceAs (Decidable True)
  | .activate _ => inferInstanceAs (Decidable True)

/-- Such a message is at most counted, and nothing comes of it. -/
theorem step_unheard {e : Event} (hok : g.Untaken config e) (he : heard config e = false) :
    Same (g.step config e).1 g ∧ (g.step config e).2 = [] := by
  cases e with
  | message message now later result =>
    have hlist : (!config.allows message) = true := congrArg not he
    rw [Forwarder.step, handleLxmfMessage]
    by_cases hinactive : (!g.active) = true
    · rw [if_pos hinactive]
      exact ⟨.refl g, rfl⟩
    rw [if_neg hinactive, Forwarder.checkSendRateLimit]
    by_cases hlimit : config.sendMinInterval ≤ 0
    · rw [if_pos hlimit]
      cases message.content with
      | none => exact ⟨.refl g, rfl⟩
      | some content =>
        dsimp only
        rw [if_pos hlist]
        exact ⟨.refl g, rfl⟩
    · -- There is a limit, so the message comes too early and is not queued either.
      have hearly : now - g.lastSendTime < config.sendMinInterval := by
        rcases hok with hok | hok | hok | hok
        · exact absurd (he.symm.trans hok) Bool.false_ne_true
        · exact absurd (congrArg not hok) hinactive
        · exact absurd hok hlimit
        · exact hok
      rw [if_neg hlimit, if_neg (not_le.2 hearly)]
      dsimp only
      rw [Forwarder.enqueueLxmfSend]
      cases message.content with
      | none => exact ⟨⟨g.msgsRateLimited, rfl⟩, rfl⟩
      | some content =>
        dsimp only
        rw [if_pos hlist]
        exact ⟨⟨g.msgsRateLimited, rfl⟩, rfl⟩
  | drain env | interfaces connected meshInterface serialListener | activate active => cases he

theorem unwinding (config : Config) :
    Purge.Unwinding (step config) (heard config) (Untaken config) Same where
  consistent g g' e h _ := h.step e
  hidden g g' e h hok he := by
    have hsame := (step_unheard hok he).1
    exact hsame.trans h

end Forwarder

open Forwarder

/-- If no message from a sender that is not on the list takes a slot of the rate limit, nothing
    comes of these messages, and without them the same texts are handed over, queued and dropped at
    the same steps, and the same texts wait at the end. -/
theorem unheard (config : Config) (g : Forwarder) (l : List Event)
    (h : Purge.Allowed (step config) (Untaken config) g l) :
    (∀ p ∈ Purge.trace (step config) g l, heard config p.1 = false → p.2 = []) ∧
    (Purge.trace (step config) g l).filter (fun p => heard config p.1) =
      Purge.trace (step config) g (l.filter (heard config)) ∧
    (Purge.final (step config) g l).sendQueue =
      (Purge.final (step config) g (l.filter (heard config))).sendQueue := by
  obtain ⟨htrace, n, hfinal⟩ := (unwinding config).purge (.refl g) h
  refine ⟨fun p hp he => ?_, htrace, by rw [hfinal]⟩
  obtain ⟨g', hok, hp⟩ := Purge.mem_trace h hp
  rw [hp]
  exact (step_unheard hok he).2

/-! ## Two senders -/

/-- One message a minute, and one sender on the list. -/
def minutely : Config where
  sendMinInterval := 60
  lxmfAllowSet := ["01".toList]

def listener : Forwarder := { serialListener := some 0 }

/-- A message, when sending it would succeed. -/
def messageAt (source : Fin 256) (now : ℚ) : Event :=
  .message ⟨[source], some "hi".toList⟩ now now ⟨.success, true⟩

/-- After an allowed message, another sender's comes too early, and changes nothing. -/
theorem unheard_early :
    (Purge.trace (step minutely) listener [messageAt 1 100, messageAt 2 110, messageAt 1 160]).filter
        (fun p => heard minutely p.1) =
      Purge.trace (step minutely) listener
        ([messageAt 1 100, messageAt 2 110, messageAt 1 160].filter (heard minutely)) :=
  (unheard minutely listener _ (by decide +kernel)).2.1

/-- The message of the sender that is not on the list takes the slot: the allowed message is
    queued. Without it the allowed message is sent. -/
theorem unheard_delays :
    (Purge.trace (step minutely) listener [messageAt 2 100, messageAt 1 110]).map (·.2) =
        [[], [.queued ⟨110, "[LXMF] <01>:\nhi".toList, 0⟩]] ∧
      [messageAt 2 100, messageAt 1 110].filter (heard minutely) = [messageAt 1 110] ∧
      (Purge.trace (step minutely) listener [messageAt 1 110]).map (·.2) =
        [[.handed 0 "[LXMF] <01>:\nhi".toList 0]] := by
  refine ⟨by decide +kernel, rfl, by decide +kernel⟩

end ReticulumPi.Gateway
