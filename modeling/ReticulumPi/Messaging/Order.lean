import Mathlib.Data.List.Infix
import ReticulumPi.Messaging.Accounting

/-!
# Queued messages keep their order

What is queued on a transport, and what its adapter accepts of it, in the order in
which it happens. A drain takes a whole queue, and what it puts back goes behind
what has arrived meanwhile; so the messages of a conversation keep their order in
the runs in which no drain starts while another one still has messages of a
conversation that is in the queue, and in which a drain puts back no message ahead
of which it has, or behind which the queue has, another one of its conversation.

* `Effect`: what a step of a call makes of the queue and of what the call will send;
* `Ordered`: the invariant, for one conversation;
* `accepted_in_order`: the result.
-/

namespace ReticulumPi.Messaging

open List

/-- A queued message, with its id. -/
abbrev Ticket := ℕ × Message

def Entry.ticket (e : Entry) : Ticket := (e.msgId, e.message)

variable {settings : Settings} {transport : String} {s s' : System} {i j : ℕ} {proc : Proc}
  {input : Input}

/-! ## What a call sends, accepts and puts back -/

section

variable (settings : Settings) (transport : String)

/-- The messages of a drain, if it is one of the transport. -/
def ofTransport (t : String) (l : List Entry) : List Ticket :=
  if t = transport then l.map Entry.ticket else []

/-- The queued messages that a call may still offer to the adapter. -/
def Proc.toSend : Proc → List Ticket
  | .looking t pending => ofTransport transport t pending
  | .looping drain pending => ofTransport transport drain.transport pending
  | .checking drain item rest | .retrying drain item rest =>
    ofTransport transport drain.transport (item :: rest)
  | .closing drain _ rest _ | .tracking drain rest => ofTransport transport drain.transport rest
  | _ => []

def toSendBy (proc : Option Proc) : List Ticket := (proc.map (Proc.toSend transport)).getD []

/-- The queued message that the adapter accepts. -/
def Proc.accepts : Proc → Input → List Ticket
  | .retrying drain item _, .reply (.result true _) =>
    ofTransport transport drain.transport [item]
  | _, _ => []

/-- What a drain puts back: all that has not expired when its time is over, all when
    the adapter is not available, and a message that is to be sent later. -/
def Proc.returns : Proc → Input → List Ticket
  | .looping drain (item :: rest), .tick mono _ =>
    if settings.outboundMaxAge < drain.now - item.queuedAt then []
    else if settings.drainTimeBudget < mono - drain.start then
      ofTransport transport drain.transport
        ((item :: rest).filter fun e => drain.now - e.queuedAt ≤ settings.outboundMaxAge)
    else []
  | .checking drain item rest, .available (some false) =>
    ofTransport transport drain.transport (item :: rest)
  | .retrying drain item _, .reply (.result false (some reason)) =>
    if isRetryableReason reason then ofTransport transport drain.transport [item] else []
  | _, _ => []

/-- What it goes on to send after it has put something back. -/
def Proc.keeps : Proc → List Ticket
  | .retrying drain _ rest => ofTransport transport drain.transport rest
  | _ => []

/-- The message that is put into the queue; that of an empty one which is full
    cannot be. -/
def Proc.puts (s : System) : Proc → Input → List Ticket
  | .pushing entry, .tick _ _ =>
    if entry.message.transport = transport ∧
        (0 < settings.outboundQueueMax ∨ s.queue transport ≠ []) then [entry.ticket]
    else []
  | _, _ => []

def System.waiting (s : System) : List Ticket := (s.queue transport).map Entry.ticket

end

theorem ofTransport_sublist {t : String} {l l' : List Entry} (h : l.Sublist l') :
    (ofTransport transport t l).Sublist (ofTransport transport t l') := by
  rw [ofTransport, ofTransport]
  split_ifs
  · exact h.map _
  · exact .refl _

theorem waiting_setProc {proc : Option Proc} :
    (s.setProc i proc).waiting transport = s.waiting transport := rfl

theorem waiting_setQueue_append {t : String} {l : List Entry} :
    (s.setQueue t (s.queue t ++ l)).waiting transport =
      s.waiting transport ++ ofTransport transport t l := by
  rw [System.waiting, queue_setQueue, ofTransport]
  by_cases ht : transport = t
  · rw [if_pos ht, if_pos ht.symm, map_append, ← ht]
    rfl
  · rw [if_neg ht, if_neg (Ne.symm ht), append_nil]
    rfl

theorem toSendBy_setProc {proc : Option Proc} :
    toSendBy transport ((s.setProc i proc).procs j) =
      if j = i then toSendBy transport proc else toSendBy transport (s.procs j) := by
  rw [procs_setProc]
  split_ifs
  · rfl
  · rfl

/-! ## What a step of a call does -/

/-- What a step of a call makes of the queue and of what it will send: messages leave
    the queue, or come in at its end; and what it accepts, puts back and goes on to
    send comes, in this order, from what it had to send. -/
structure Effect (settings : Settings) (transport : String) (s : System) (proc : Proc)
    (input : Input) (s' : System) (i : ℕ) : Prop where
  waiting : (s'.waiting transport).Sublist (s.waiting transport ++
    (proc.returns settings transport input ++ proc.puts settings transport s input))
  toSend : (proc.accepts transport input ++ (proc.returns settings transport input ++
    toSendBy transport (s'.procs i))).Sublist (proc.toSend transport)
  keeps : proc.returns settings transport input ≠ [] →
    toSendBy transport (s'.procs i) = proc.keeps transport

/-- A step that leaves the queue alone, and after which the call has no more to send
    than before. -/
theorem Effect.quiet {next : Option Proc} (hqueues : s'.queues = s.queues)
    (haccepts : proc.accepts transport input = [])
    (hreturns : proc.returns settings transport input = [])
    (hnext : (toSendBy transport next).Sublist (proc.toSend transport)) :
    Effect settings transport s proc input (s'.setProc i next) i := by
  refine ⟨?_, ?_, fun h => absurd hreturns h⟩
  · have hwaiting : (s'.setProc i next).waiting transport = s.waiting transport := by
      rw [System.waiting, System.waiting, System.queue, System.queue]
      change (((s'.queues).get? transport).getD []).map _ = _
      rw [hqueues]
    rw [hwaiting]
    exact sublist_append_left _ _
  · rw [haccepts, hreturns, toSendBy_setProc, if_pos rfl]
    exact hnext

/-- A step in which a drain puts messages back. -/
theorem Effect.putBack {next : Option Proc} {t : String} {l : List Entry}
    (haccepts : proc.accepts transport input = [])
    (hreturns : proc.returns settings transport input = ofTransport transport t l)
    (hkeeps : toSendBy transport next = proc.keeps transport)
    (hnext : (ofTransport transport t l ++ toSendBy transport next).Sublist
      (proc.toSend transport)) :
    Effect settings transport s proc input
      ((s.setQueue t (s.queue t ++ l)).setProc i next) i := by
  refine ⟨?_, ?_, fun _ => ?_⟩
  · rw [waiting_setProc, waiting_setQueue_append, hreturns, ← append_assoc]
    exact sublist_append_left _ _
  · rw [haccepts, hreturns, toSendBy_setProc, if_pos rfl]
    exact hnext
  · rw [toSendBy_setProc, if_pos rfl]
    exact hkeeps

theorem maybePrune_queues {now : ℚ} : (s.maybePrune settings now).queues = s.queues := by
  rw [System.maybePrune]
  split_ifs
  · rfl
  · rfl

/-- The entry goes to the end of its queue, from which the oldest may be taken. -/
theorem Effect.push {entry : Entry} {now later : ℚ} :
    Effect settings transport s (.pushing entry) (.tick now later) (s.push settings i entry) i := by
  set t := entry.message.transport with ht
  -- What the queue is afterwards, when the entry has been put into it.
  have hput : ∀ (q : List Entry) (next : Option Proc), q.Sublist (s.queue t) →
      (0 < settings.outboundQueueMax ∨ s.queue t ≠ []) → toSendBy transport next = [] →
      Effect settings transport s (.pushing entry) (.tick now later)
        ((s.setQueue t (q ++ [entry])).setProc i next) i := by
    intro q next hq hcan hnext
    refine ⟨?_, ?_, fun h => absurd rfl h⟩
    · rw [waiting_setProc, System.waiting, queue_setQueue, Proc.puts, ← ht]
      by_cases htransport : transport = t
      · subst htransport
        rw [if_pos rfl, if_pos ⟨rfl, hcan⟩, map_append]
        exact (hq.map _).append_right _
      · rw [if_neg htransport, if_neg fun h => htransport h.1.symm]
        exact sublist_append_left _ _
    · rw [toSendBy_setProc, if_pos rfl, hnext]
      exact .refl _
  rw [System.push, ← ht]
  split_ifs with hfull
  · split
    next hempty =>
      -- The queue is empty and full: the call ends with an exception.
      refine ⟨?_, ?_, fun h => absurd rfl h⟩
      · have hwaiting : (s.setQueue t []).waiting transport = s.waiting transport := by
          rw [System.waiting, queue_setQueue]
          split_ifs with htransport
          · rw [System.waiting, htransport, hempty]
          · rfl
        rw [waiting_setProc, hwaiting]
        exact sublist_append_left _ _
      · rw [toSendBy_setProc, if_pos rfl]
        exact .refl _
    next evicted q hcons =>
      refine hput q _ ?_ (.inr (by rw [hcons]; exact cons_ne_nil _ _)) rfl
      rw [hcons]
      exact sublist_cons_self _ _
  · refine hput _ none (.refl _) ?_ rfl
    by_cases hempty : s.queue t = []
    · rw [hempty, length_nil] at hfull
      exact .inl (by omega)
    · exact .inr hempty

theorem Effect.loopStep {drain : Drain} {pending : List Entry} {mono later : ℚ} :
    Effect settings transport s (.looping drain pending) (.tick mono later)
      (s.loopStep settings i drain mono pending) i := by
  rcases pending with _ | ⟨item, rest⟩
  · rw [System.loopStep]
    refine .quiet rfl rfl rfl ?_
    split_ifs
    all_goals exact nil_sublist _
  · rw [System.loopStep]
    split_ifs with hold hbudget
    · refine .quiet rfl rfl ?_ (ofTransport_sublist (sublist_cons_self _ _))
      rw [Proc.returns, if_pos hold]
    · refine .putBack rfl ?_ rfl ?_
      · rw [Proc.returns, if_neg hold, if_pos hbudget]
      · change (ofTransport _ _ _ ++ []).Sublist (ofTransport _ _ _)
        rw [append_nil]
        exact ofTransport_sublist filter_sublist
    · refine .quiet rfl rfl ?_ (.refl _)
      rw [Proc.returns, if_neg hold, if_neg hbudget]

theorem Effect.checkStep {drain : Drain} {item : Entry} {rest : List Entry}
    {answer : Option Bool} :
    Effect settings transport s (.checking drain item rest) (.available answer)
      (s.checkStep i drain item rest answer) i := by
  rcases answer with _ | _ | _
  · exact .quiet rfl rfl rfl (nil_sublist _)
  · refine .putBack rfl rfl ?_ ?_
    · change ofTransport _ _ [] = []
      rw [ofTransport, map_nil, ite_self]
    · change (ofTransport _ _ _ ++ ofTransport _ _ []).Sublist (ofTransport _ _ _)
      have hnil : ofTransport transport drain.transport [] = [] := by
        rw [ofTransport, map_nil, ite_self]
      rw [hnil, append_nil]
  · exact .quiet rfl rfl rfl (.refl _)

theorem ofTransport_cons {t : String} {item : Entry} (rest : List Entry) :
    ofTransport transport t (item :: rest) =
      ofTransport transport t [item] ++ ofTransport transport t rest := by
  rw [ofTransport, ofTransport, ofTransport]
  split_ifs
  · rfl
  · rfl

theorem Effect.retryStep {drain : Drain} {item : Entry} {rest : List Entry} {reply : Reply} :
    Effect settings transport s (.retrying drain item rest) (.reply reply)
      (s.retryStep i drain item rest reply) i := by
  have hrest : (ofTransport transport drain.transport rest).Sublist
      (ofTransport transport drain.transport (item :: rest)) :=
    ofTransport_sublist (sublist_cons_self _ _)
  rcases reply with _ | _ | ⟨_ | _, _ | reason⟩
  · exact .quiet rfl rfl rfl hrest
  · exact .quiet rfl rfl rfl (nil_sublist _)
  · exact .quiet rfl rfl rfl (nil_sublist _)
  · rw [System.retryStep]
    split_ifs with hretryable
    · refine .putBack rfl ?_ rfl ?_
      · rw [Proc.returns, if_pos hretryable]
      · rw [Proc.toSend, ofTransport_cons rest]
        exact .refl _
    · refine .quiet rfl rfl ?_ hrest
      rw [Proc.returns, if_neg hretryable]
  all_goals
    -- The adapter accepts the message.
    refine ⟨sublist_append_left _ _, ?_, fun h => absurd rfl h⟩
    rw [System.retryStep, toSendBy_setProc, if_pos rfl, Proc.toSend, ofTransport_cons rest]
    exact .refl _

theorem effect_advance (h : s.advance settings i proc input = some s') :
    Effect settings transport s proc input s' i := by
  rw [System.advance.eq_def] at h
  split at h
  next message answer =>
    cases h
    refine .quiet rfl rfl rfl ?_
    rcases answer with _ | _ | _ <;> exact nil_sublist _
  next message reply =>
    cases h
    rcases reply with _ | _ | ⟨_ | _, _ | reason⟩
    · exact .quiet rfl rfl rfl (nil_sublist _)
    · exact .quiet rfl rfl rfl (nil_sublist _)
    · exact .quiet rfl rfl rfl (nil_sublist _)
    · refine .quiet rfl rfl rfl ?_
      split_ifs <;> exact nil_sublist _
    all_goals exact .quiet rfl rfl rfl (nil_sublist _)
  next => cases h; exact .quiet rfl rfl rfl (nil_sublist _)
  next => cases h; exact .push
  next => cases h; exact .quiet rfl rfl rfl (nil_sublist _)
  next message sent ok now =>
    cases h
    split_ifs
    all_goals exact .quiet rfl rfl rfl (nil_sublist _)
  next id message sent now _ =>
    cases h
    refine .quiet maybePrune_queues rfl rfl ?_
    split_ifs <;> exact nil_sublist _
  next =>
    cases h
    split_ifs
    · exact .quiet rfl rfl rfl (nil_sublist _)
    · exact .quiet rfl rfl rfl (nil_sublist _)
  next t pending now mono =>
    cases h
    refine .quiet rfl rfl rfl ?_
    split
    · exact nil_sublist _
    · exact .refl _
  next => cases h; exact .quiet rfl rfl rfl (nil_sublist _)
  next => cases h; exact .quiet rfl rfl rfl (nil_sublist _)
  next => cases h; exact .loopStep
  next => cases h; exact .checkStep
  next => cases h; exact .retryStep
  next drain item rest ending _ _ =>
    cases h
    refine .quiet rfl rfl rfl ?_
    split_ifs <;> exact .refl _
  next drain rest ok _ =>
    cases h
    refine .quiet rfl rfl rfl ?_
    split_ifs
    · exact .refl _
    · exact nil_sublist _
  next =>
    cases h
    refine .quiet rfl rfl rfl ?_
    split_ifs <;> exact nil_sublist _
  next => cases h; exact .quiet rfl rfl rfl (nil_sublist _)
  next => cases h; exact .quiet maybePrune_queues rfl rfl (nil_sublist _)
  next => cases h; exact .quiet rfl rfl rfl (nil_sublist _)
  next => cases h; exact .quiet rfl rfl rfl (nil_sublist _)
  next => cases h

/-! ## What is queued and what is accepted -/

/-- The hub, with what has been queued on a transport, what its adapter has accepted
    of it, both the first one first, and the calls that began as drains. -/
structure Tracked where
  hub : System
  queued : List Ticket
  accepted : List Ticket := []
  drains : List ℕ := []

namespace Tracked

variable (settings : Settings) (transport : String) (s : Tracked)

/-- The message that a step puts into the queue. -/
def puts : Event → List Ticket
  | .step i input => ((s.hub.procs i).map
      (Proc.puts settings transport s.hub · input)).getD []
  | _ => []

/-- The queued message that the adapter accepts in a step. -/
def accepts : Event → List Ticket
  | .step i input => ((s.hub.procs i).map (Proc.accepts transport · input)).getD []
  | _ => []

def next (e : Event) : Option Tracked :=
  (Messaging.next settings s.hub e).map fun hub =>
    { hub
      queued := s.queued ++ s.puts settings transport e
      accepted := s.accepted ++ s.accepts transport e
      drains := match e with
        | .drain i _ => i :: s.drains
        | _ => s.drains }

/-- The step does not overtake: no drain takes the queue while another one still has
    a message of a conversation in it, and a drain puts nothing back when there is
    another message of its conversation in the queue or in what the drain still sends. -/
def Orderly {κ : Type*} (conv : Message → κ) : Event → Prop
  | .drain _ t => t = transport → ∀ k ∈ s.drains, ∀ x ∈ toSendBy transport (s.hub.procs k),
      ∀ y ∈ s.hub.waiting transport, conv x.2 ≠ conv y.2
  | .step i input => ∀ proc ∈ s.hub.procs i, ∀ x ∈ proc.returns settings transport input,
      ∀ y ∈ s.hub.waiting transport ++ proc.keeps transport, conv x.2 ≠ conv y.2
  | _ => True

instance {κ : Type*} [DecidableEq κ] (conv : Message → κ) :
    ∀ e, Decidable (s.Orderly settings transport conv e)
  | .adapter _ _ | .send _ _ | .expire _ _ => inferInstanceAs (Decidable True)
  | .drain _ t => inferInstanceAs (Decidable (t = transport → _))
  | .step i _ => inferInstanceAs (Decidable (∀ proc ∈ s.hub.procs i, _))

end Tracked

/-- The hub, with what is queued on the transport and accepted; a hub that starts
    takes up what an earlier one has left. -/
abbrev tracked (settings : Settings) (transport : String) : Transition Tracked Event :=
  .ofNext (fun s => ∃ store now, Store.IsProper store ∧
      s.hub = recoverQueuedMessages settings store now ∧ s.queued = s.hub.waiting transport ∧
      s.accepted = [] ∧ s.drains = [])
    (Tracked.next settings transport)

section Conversation

variable {κ : Type*} [DecidableEq κ] (conv : Message → κ) (c : κ)

/-- Those of the messages that are of the conversation. -/
def ofConversation (l : List Ticket) : List Ticket := l.filter (conv ·.2 = c)

theorem ofConversation_append {l l' : List Ticket} :
    ofConversation conv c (l ++ l') = ofConversation conv c l ++ ofConversation conv c l' :=
  filter_append _ _

theorem ofConversation_sublist {l l' : List Ticket} (h : l.Sublist l') :
    (ofConversation conv c l).Sublist (ofConversation conv c l') := h.filter _

/-- The messages of the conversation that have been accepted, those that one drain
    has yet to send and those in the queue come in the order in which they were
    queued, and only one drain has any to send. -/
structure Ordered (transport : String) (s : Tracked) : Prop where
  alone : ∀ i j, i ≠ j → ofConversation conv c (toSendBy transport (s.hub.procs i)) = [] ∨
    ofConversation conv c (toSendBy transport (s.hub.procs j)) = []
  sorted : ∀ j, (ofConversation conv c s.accepted ++
    (ofConversation conv c (toSendBy transport (s.hub.procs j)) ++
      ofConversation conv c (s.hub.waiting transport))).Sublist (ofConversation conv c s.queued)
  drains : ∀ j, toSendBy transport (s.hub.procs j) ≠ [] → j ∈ s.drains

variable {conv c} {s s' : Tracked}

/-- If a message of the conversation is put back, there is no other one behind which
    it could come. -/
theorem ofConversation_of_returns {returns l : List Ticket}
    (hreturns : ofConversation conv c returns ≠ [])
    (h : ∀ x ∈ returns, ∀ y ∈ l, conv x.2 ≠ conv y.2) : ofConversation conv c l = [] := by
  obtain ⟨x, hx⟩ := exists_mem_of_ne_nil _ hreturns
  obtain ⟨hx, hxc⟩ := mem_filter.1 hx
  rw [ofConversation, List.filter_eq_nil_iff]
  intro y hy hyc
  exact h x hx y hy ((of_decide_eq_true hxc).trans (of_decide_eq_true hyc).symm)

/-- Messages leave the queue, and no call has more to send than before. -/
theorem Ordered.shrink (hs : Ordered conv c transport s)
    (hprocs : ∀ j, (toSendBy transport (s'.hub.procs j)).Sublist
      (toSendBy transport (s.hub.procs j)))
    (hwaiting : (s'.hub.waiting transport).Sublist (s.hub.waiting transport))
    (hqueued : s'.queued = s.queued) (haccepted : s'.accepted = s.accepted)
    (hdrains : s'.drains = s.drains) : Ordered conv c transport s' := by
  have hnil : ∀ j, ofConversation conv c (toSendBy transport (s.hub.procs j)) = [] →
      ofConversation conv c (toSendBy transport (s'.hub.procs j)) = [] := fun j h =>
    sublist_nil.1 (h ▸ ofConversation_sublist conv c (hprocs j))
  refine ⟨fun i j hij => ?_, fun j => ?_, fun j hj => ?_⟩
  · exact (hs.alone i j hij).imp (hnil i) (hnil j)
  · rw [haccepted, hqueued]
    refine .trans (.append_left ?_ _) (hs.sorted j)
    exact (ofConversation_sublist conv c (hprocs j)).append (ofConversation_sublist conv c hwaiting)
  · rw [hdrains]
    exact hs.drains j fun h => hj (sublist_nil.1 (h ▸ hprocs j))

/-- A drain takes the queue. -/
theorem Ordered.beginDrain (hs : Ordered conv c transport s)
    (h : ∀ k ∈ s.drains, ∀ x ∈ toSendBy transport (s.hub.procs k),
      ∀ y ∈ s.hub.waiting transport, conv x.2 ≠ conv y.2) :
    Ordered conv c transport
      { s with
        hub := (s.hub.setQueue transport []).setProc i
          (some (.looking transport (s.hub.queue transport)))
        drains := i :: s.drains } := by
  set hub := (s.hub.setQueue transport []).setProc i
    (some (.looking transport (s.hub.queue transport))) with hhub
  have hwaiting : hub.waiting transport = [] := by
    rw [hhub, waiting_setProc, System.waiting, queue_setQueue, if_pos rfl, map_nil]
  have hprocs : ∀ j, toSendBy transport (hub.procs j) =
      if j = i then s.hub.waiting transport else toSendBy transport (s.hub.procs j) := fun j => by
    rw [hhub, toSendBy_setProc]
    split_ifs
    · change ofTransport transport transport (s.hub.queue transport) = _
      rw [ofTransport, if_pos rfl, System.waiting]
    · rfl
  -- What the other drains have to send is of other conversations than the queue.
  have hother : ∀ j, ofConversation conv c (toSendBy transport (s.hub.procs j)) = [] ∨
      ofConversation conv c (s.hub.waiting transport) = [] := by
    intro j
    by_cases hj : ofConversation conv c (toSendBy transport (s.hub.procs j)) = []
    · exact .inl hj
    · refine .inr (ofConversation_of_returns hj (h j (hs.drains j fun hnil => hj ?_)))
      rw [hnil]
      rfl
  refine ⟨fun j k hjk => ?_, fun j => ?_, fun j hj => ?_⟩
  · rw [hprocs, hprocs]
    split_ifs with hji hki hki
    · exact absurd (hji.trans hki.symm) hjk
    · exact (hother k).symm
    · exact hother j
    · exact hs.alone j k hjk
  · rw [hprocs, hwaiting]
    change (_ ++ (_ ++ [])).Sublist _
    rw [append_nil]
    split_ifs
    · refine .trans (.append_left ?_ _) (hs.sorted i)
      exact sublist_append_right _ _
    · refine .trans (.append_left ?_ _) (hs.sorted j)
      exact sublist_append_left _ _
  · rw [hprocs] at hj
    split_ifs at hj with hji
    · exact hji ▸ mem_cons_self
    · exact mem_cons_of_mem _ (hs.drains j hj)

/-- A call takes a step. -/
theorem Ordered.advance {hub : System} (hs : Ordered conv c transport s)
    (hproc : s.hub.procs i = some proc)
    (hothers : ∀ j, j ≠ i → hub.procs j = s.hub.procs j)
    (heffect : Effect settings transport s.hub proc input hub i)
    (h : ∀ x ∈ proc.returns settings transport input,
      ∀ y ∈ s.hub.waiting transport ++ proc.keeps transport, conv x.2 ≠ conv y.2) :
    Ordered conv c transport
      { s with
        hub
        queued := s.queued ++ proc.puts settings transport s.hub input
        accepted := s.accepted ++ proc.accepts transport input } := by
  have hold : toSendBy transport (s.hub.procs i) = proc.toSend transport := by
    rw [hproc]
    rfl
  have hnew := ofConversation_sublist conv c heffect.toSend
  have hwaiting := ofConversation_sublist conv c heffect.waiting
  simp only [ofConversation_append] at hnew hwaiting
  have hsorted := hs.sorted i
  rw [hold] at hsorted
  -- The order, as far as the call itself is concerned.
  have hcall : (ofConversation conv c (s.accepted ++ proc.accepts transport input) ++
      (ofConversation conv c (toSendBy transport (hub.procs i)) ++
        ofConversation conv c (hub.waiting transport))).Sublist
      (ofConversation conv c (s.queued ++ proc.puts settings transport s.hub input)) := by
    rw [ofConversation_append, ofConversation_append]
    by_cases hreturns : ofConversation conv c (proc.returns settings transport input) = []
    · rw [hreturns, nil_append] at hnew hwaiting
      calc _ = ofConversation conv c s.accepted ++
            ((ofConversation conv c (proc.accepts transport input) ++
              ofConversation conv c (toSendBy transport (hub.procs i))) ++
              ofConversation conv c (hub.waiting transport)) := by
            simp only [append_assoc]
        Sublist _ (ofConversation conv c s.accepted ++
            (ofConversation conv c (proc.toSend transport) ++
              (ofConversation conv c (s.hub.waiting transport) ++
                ofConversation conv c (proc.puts settings transport s.hub input)))) :=
            (hnew.append hwaiting).append_left _
        _ = (ofConversation conv c s.accepted ++
            (ofConversation conv c (proc.toSend transport) ++
              ofConversation conv c (s.hub.waiting transport))) ++
                ofConversation conv c (proc.puts settings transport s.hub input) := by
            simp only [append_assoc]
        Sublist _ _ := hsorted.append_right _
    · -- What is put back is alone in its conversation.
      have hnone := ofConversation_of_returns hreturns h
      rw [ofConversation_append, append_eq_nil_iff] at hnone
      have hkeeps : ofConversation conv c (toSendBy transport (hub.procs i)) = [] := by
        rw [heffect.keeps fun hnil => hreturns (by rw [hnil]; rfl)]
        exact hnone.2
      rw [hkeeps, append_nil] at hnew
      rw [hnone.1, nil_append] at hwaiting
      rw [hnone.1, append_nil] at hsorted
      rw [hkeeps, nil_append]
      calc _ = ofConversation conv c s.accepted ++
            (ofConversation conv c (proc.accepts transport input) ++
              ofConversation conv c (hub.waiting transport)) := by
            simp only [append_assoc]
        Sublist _ (ofConversation conv c s.accepted ++
            (ofConversation conv c (proc.accepts transport input) ++
              (ofConversation conv c (proc.returns settings transport input) ++
                ofConversation conv c (proc.puts settings transport s.hub input)))) :=
            (hwaiting.append_left _).append_left _
        _ = ofConversation conv c s.accepted ++
            (ofConversation conv c (proc.accepts transport input) ++
              ofConversation conv c (proc.returns settings transport input)) ++
                ofConversation conv c (proc.puts settings transport s.hub input) := by
            simp only [append_assoc]
        Sublist _ _ := ((hnew.append_left _).trans hsorted).append_right _
  have hshrink : (ofConversation conv c (toSendBy transport (hub.procs i))).Sublist
      (ofConversation conv c (proc.toSend transport)) :=
    ((sublist_append_right _ _).trans (sublist_append_right _ _)).trans hnew
  refine ⟨fun j k hjk => ?_, fun j => ?_, fun j hj => ?_⟩
  · -- The call has no message of the conversation that it did not have before.
    have hnil : ∀ l, ofConversation conv c (toSendBy transport (s.hub.procs l)) = [] →
        ofConversation conv c (toSendBy transport (hub.procs l)) = [] := by
      intro l hl
      by_cases hli : l = i
      · rw [hli, hold] at hl
        rw [hl] at hshrink
        rw [hli]
        exact sublist_nil.1 hshrink
      · rw [hothers l hli]
        exact hl
    exact (hs.alone j k hjk).imp (hnil j) (hnil k)
  · by_cases hji : j = i
    · rw [hji]
      exact hcall
    · change (_ ++ (ofConversation conv c (toSendBy transport (hub.procs j)) ++ _)).Sublist _
      rw [hothers j hji]
      rcases hs.alone j i hji with hj | hi
      · rw [hj, nil_append]
        exact ((sublist_append_right _ _).append_left _).trans hcall
      · -- The call has nothing to do with the conversation.
        rw [hold] at hi
        rw [hi, sublist_nil, append_eq_nil_iff, append_eq_nil_iff] at hnew
        obtain ⟨haccepts, hreturns, -⟩ := hnew
        rw [hreturns, nil_append] at hwaiting
        rw [ofConversation_append, ofConversation_append, haccepts, append_nil]
        refine ((hwaiting.append_left _).append_left _).trans ?_
        rw [← append_assoc, ← append_assoc]
        have hj := hs.sorted j
        rw [← append_assoc] at hj
        exact hj.append_right _
  · by_cases hji : j = i
    · refine hs.drains j fun hnil => hj ?_
      rw [hji, hold] at hnil
      have hsub := heffect.toSend
      rw [hnil, sublist_nil, append_eq_nil_iff, append_eq_nil_iff] at hsub
      rw [hji]
      exact hsub.2.2
    · refine hs.drains j ?_
      rw [← hothers j hji]
      exact hj

theorem Ordered.next {e : Event} (hs : Ordered conv c transport s)
    (horderly : s.Orderly settings transport conv e) (h : s.next settings transport e = some s') :
    Ordered conv c transport s' := by
  obtain ⟨hub, hstep, rfl⟩ := Option.map_eq_some_iff.1 h
  rcases e with ⟨t, _ | adapter⟩ | ⟨i, message⟩ | ⟨i, t⟩ | ⟨i, now⟩ | ⟨i, input⟩
  · cases hstep
    exact hs.shrink (fun _ => .refl _) (.refl _) (append_nil _)
      (append_nil _) rfl
  · cases hstep
    exact hs.shrink (fun _ => .refl _) (.refl _) (append_nil _)
      (append_nil _) rfl
  · obtain ⟨hnone, heq⟩ := Option.ite_none_right_eq_some.1 hstep
    cases heq
    refine hs.shrink (fun j => ?_) ?_ (append_nil _) (append_nil _) rfl
    · rw [System.beginSend]
      split
      · exact .refl _
      · split_ifs
        · exact .refl _
        · rw [toSendBy_setProc]
          split_ifs
          · exact nil_sublist _
          · exact .refl _
    · rw [System.beginSend]
      split
      · exact .refl _
      · split_ifs
        all_goals exact .refl _
  · obtain ⟨hnone, heq⟩ := Option.ite_none_right_eq_some.1 hstep
    cases heq
    -- A drain that begins, whether it takes anything or not.
    have hbegun : Ordered conv c transport { s with drains := i :: s.drains } :=
      ⟨hs.alone, hs.sorted, fun j hj => mem_cons_of_mem _ (hs.drains j hj)⟩
    rw [System.beginDrain]
    split
    · exact hbegun.shrink (fun _ => .refl _) (.refl _)
        (append_nil _) (append_nil _) rfl
    · by_cases ht : t = transport
      · rw [ht]
        exact (hs.beginDrain (horderly ht)).shrink (fun _ => .refl _)
          (.refl _) (append_nil _) (append_nil _) rfl
      · refine hbegun.shrink (fun j => ?_) ?_ (append_nil _) (append_nil _) rfl
        · rw [toSendBy_setProc]
          split_ifs
          · change (ofTransport transport t _).Sublist _
            rw [ofTransport, if_neg ht]
            exact nil_sublist _
          · exact .refl _
        · rw [waiting_setProc, System.waiting, queue_setQueue, if_neg (Ne.symm ht)]
          exact .refl _
  · obtain ⟨hnone, heq⟩ := Option.ite_none_right_eq_some.1 hstep
    cases heq
    refine hs.shrink (fun j => ?_) ?_ (append_nil _) (append_nil _) rfl
    · rw [System.beginExpire, toSendBy_setProc]
      split_ifs
      · exact nil_sublist _
      · exact .refl _
    · rw [System.beginExpire, waiting_setProc, System.waiting, System.queue, Dict.get?_map]
      rcases hq : s.hub.queues.get? transport with _ | q
      · exact nil_sublist _
      · rw [System.waiting, System.queue, hq]
        exact filter_sublist.map _
  · obtain ⟨proc, hproc, hadvance⟩ := Option.bind_eq_some_iff.1 hstep
    have hputs : s.puts settings transport (.step i input) =
        proc.puts settings transport s.hub input := by
      rw [Tracked.puts, hproc]
      rfl
    have haccepts : s.accepts transport (.step i input) = proc.accepts transport input := by
      rw [Tracked.accepts, hproc]
      rfl
    rw [hputs, haccepts]
    exact hs.advance hproc (fun j hj => procs_advance hj hadvance) (effect_advance hadvance)
      (horderly proc hproc)

/-- The calls of a hub that starts: none. -/
theorem procs_recover {store : Store} {now : ℚ} (hstore : store.IsProper) :
    (recoverQueuedMessages settings store now).procs j = none :=
  (recovering_recover hstore).procs j

variable (settings transport conv) in
/-- In the runs in which no step overtakes, the messages of each conversation are
    accepted in the order in which they were queued. -/
theorem accepted_in_order (s : Tracked)
    (h : (tracked settings transport).Reach (fun s => s.Orderly settings transport conv) s)
    (c : κ) :
    (s.accepted.filter (conv ·.2 = c)).Sublist (s.queued.filter (conv ·.2 = c)) := by
  have hordered : Ordered conv c transport s := by
    refine h.induction ?_ fun s e s' hs horderly hstep => hs.next horderly hstep
    rintro s ⟨store, now, hstore, hhub, hqueued, haccepted, hdrains⟩
    have hnone : ∀ j, toSendBy transport (s.hub.procs j) = [] := fun j => by
      rw [hhub, procs_recover hstore]
      rfl
    refine ⟨fun i j _ => .inl (by rw [hnone]; rfl), fun j => ?_, fun j hj => absurd (hnone j) hj⟩
    rw [hnone, haccepted, hqueued]
    exact .refl _
  exact (sublist_append_left _ _).trans (hordered.sorted 0)

end Conversation

/-! ## Two messages of a conversation -/

/-- The second message to the node. -/
def again : Message := { transport := "lxmf", text := "still there?", destination := "a1b2c3" }

/-- The store of a hub that was stopped when two messages were queued. -/
def twoLeft : Store :=
  { rows := Dict.set leftStore.rows 2 { message := again, status := .queued, timestamp := 150 }
    nextId := 3
    lastTs := 150 }

theorem twoLeft_isProper : twoLeft.IsProper := by
  constructor
  · decide
  · intro id row hrow _
    rw [twoLeft, Dict.get?_set] at hrow
    split_ifs at hrow
    · cases hrow
      rfl
    · rw [leftStore, Dict.get?_set] at hrow
      split_ifs at hrow
      · cases hrow
        rfl
      · cases hrow

/-- The hub that starts with them. -/
def restarted : Tracked :=
  { hub := recoverQueuedMessages {} twoLeft 200
    queued := (recoverQueuedMessages {} twoLeft 200).waiting "lxmf" }

/-- A drain offers both, and both are accepted. -/
def drainBoth : List Event :=
  [.adapter "lxmf" (some {}), .drain 0 "lxmf", .step 0 (.tick 200 0), .step 0 (.tick 0 0),
    .step 0 (.available (some true)), .step 0 (.reply (.result true none)), .step 0 (.tick 0 0),
    .step 0 (.tracked true false), .step 0 (.tick 0 0), .step 0 (.available (some true)),
    .step 0 (.reply (.result true none))]

theorem accepted_in_order_both : ∃ s : Tracked,
    s.accepted = [(1, hello), (2, again)] ∧
      (s.accepted.filter fun k => k.2.destination = "a1b2c3").Sublist
        (s.queued.filter fun k => k.2.destination = "a1b2c3") := by
  obtain ⟨s, hs, haccepted⟩ : ∃ s ∈ drainBoth.foldlM (fun (s : Tracked) e =>
        if s.Orderly {} "lxmf" Message.destination e then Tracked.next {} "lxmf" s e else none)
        restarted, s.accepted = [(1, hello), (2, again)] := by
    decide +kernel
  exact ⟨s, haccepted, accepted_in_order {} "lxmf" Message.destination s
    (Transition.Reach.foldlM (.init ⟨twoLeft, 200, twoLeft_isProper, rfl, rfl, rfl, rfl⟩) hs)
    "a1b2c3"⟩

/-- The path to the node is found only after the first message was offered: the drain
    puts the first one back and goes on with the second. -/
def pathFoundLate : List Event :=
  [.adapter "lxmf" (some {}), .drain 0 "lxmf", .step 0 (.tick 200 0), .step 0 (.tick 0 0),
    .step 0 (.available (some true)), .step 0 (.reply (.result false (some "Path not found"))),
    .step 0 (.tick 0 0), .step 0 (.available (some true)),
    .step 0 (.reply (.result true none)), .drain 1 "lxmf", .step 1 (.tick 201 0),
    .step 1 (.tick 0 0), .step 1 (.available (some true)),
    .step 1 (.reply (.result true none))]

/-- The second message is accepted first. -/
theorem accepted_in_order_fails : ∃ s : Tracked, (tracked {} "lxmf").Reachable s ∧
    s.queued = [(1, hello), (2, again)] ∧ s.accepted = [(2, again), (1, hello)] ∧
    ¬ (s.accepted.filter fun k => k.2.destination = "a1b2c3").Sublist
      (s.queued.filter fun k => k.2.destination = "a1b2c3") := by
  obtain ⟨s, hs, hqueued, haccepted⟩ :
      ∃ s ∈ pathFoundLate.foldlM (Tracked.next {} "lxmf") restarted,
        s.queued = [(1, hello), (2, again)] ∧ s.accepted = [(2, again), (1, hello)] := by
    decide +kernel
  refine ⟨s, Transition.Reachable.foldlM
    (.init ⟨twoLeft, 200, twoLeft_isProper, rfl, rfl, rfl, rfl⟩) hs, hqueued, haccepted, ?_⟩
  rw [hqueued, haccepted]
  decide

end ReticulumPi.Messaging
