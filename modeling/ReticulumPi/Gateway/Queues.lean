import Mathlib.Algebra.Order.Ring.Rat
import ReticulumPi.Lib.PyValue
import ReticulumPi.Lib.Transition

/-!
# The two queues of the Meshtastic gateway

LXMF messages that the send rate does not allow wait in the send queue, and
mesh messages that did not reach an LXMF recipient in the pending queue. Both
are bounded: an enqueue that finds its queue full removes the first entry. The
loop of the gateway drains the send queue and retries the pending one, in turn;
it takes an entry out, releases the lock, and may put the entry back, at the
front of the send queue and at the end of the pending one.

The callbacks of LXMF enqueue in one step; those of the mesh go through the
recipients, one attempt and perhaps one deferral after the other. All of these
interleave with the loop (`System.next`). Entries carry the number of their
enqueue, and the system keeps a record of what was evicted and what was left in
the queue then.
-/

namespace ReticulumPi.Gateway.Queues

/-! ## The configuration -/

/-- The settings of the two queues, and the recipients. -/
structure Config (ρ : Type) where
  sendQueueSize : PyValue := .int 10
  sendQueueTtl : ℚ := 60
  pendingLxmfSize : PyValue := .int 20
  pendingLxmfTtl : ℚ := 120
  /-- `_recipient_hashes` -/
  recipients : List ρ

/-- `isinstance(size, int) and size >= 0`, for which a Boolean passes. -/
def isSize : PyValue → Bool
  | .int n => 0 ≤ n
  | .bool _ => true
  | _ => false

/-- `int(size)` of such a value. -/
def sizeOf : PyValue → ℕ
  | .int n => n.toNat
  | .bool true => 1
  | _ => 0

/-- `validate_config`, as far as it looks at these. -/
def Config.validateConfig {ρ : Type} (c : Config ρ) : Except String Unit :=
  if !isSize c.sendQueueSize then
    .error "send_queue_size must be a non-negative integer"
  else if c.sendQueueTtl ≤ 0 then .error "send_queue_ttl must be > 0 seconds"
  else if !isSize c.pendingLxmfSize then
    .error "pending_lxmf_size must be a non-negative integer"
  else if c.pendingLxmfTtl ≤ 0 then .error "pending_lxmf_ttl must be > 0 seconds"
  else .ok ()

/-- `_send_queue_max` -/
def Config.sendQueueMax {ρ : Type} (c : Config ρ) : ℕ := sizeOf c.sendQueueSize

/-- `_pending_lxmf_max` -/
def Config.pendingLxmfMax {ρ : Type} (c : Config ρ) : ℕ := sizeOf c.pendingLxmfSize

/-! ## The state -/

/-- An entry of a queue, with the number of its enqueue. -/
structure Entry (α : Type) where
  number : ℕ
  enqueuedAt : ℚ
  content : α

/-- A queue, the entries that were enqueued, and what was evicted, each with the queue that it left
    behind. -/
structure Queue (α : Type) where
  entries : List (Entry α) := []
  enqueued : ℕ := 0
  evicted : List (Entry α × List (Entry α)) := []

namespace Queue

variable {α : Type} (q : Queue α)

/-- The enqueue: `popleft` if it is full, which raises if it is empty, then `append`. -/
def enqueue (max : ℕ) (now : ℚ) (content : α) : Option (Queue α) :=
  let entry : Entry α := ⟨q.enqueued, now, content⟩
  if max ≤ q.entries.length then
    match q.entries with
    | [] => none
    | first :: rest =>
      some ⟨rest ++ [entry], q.enqueued + 1, (first, rest) :: q.evicted⟩
  else some ⟨q.entries ++ [entry], q.enqueued + 1, q.evicted⟩

def appendleft (entry : Entry α) : Queue α := { q with entries := entry :: q.entries }

def append (entry : Entry α) : Queue α := { q with entries := q.entries ++ [entry] }

end Queue

/-- What `_drain_send_queue` does next with the entry that it has taken out. -/
inductive Stage
  | rateLimit | interface | sending
  deriving DecidableEq

/-- A pass of `_retry_pending_lxmf`. -/
structure Pass (β : Type) where
  now : ℚ
  /-- How many times it will take an entry yet. -/
  remaining : ℕ
  held : Option (Entry β) := none
  /-- How many entries it has put back, and whether one was deferred since it began. -/
  putBack : ℕ := 0
  deferred : Bool := false

/-- Where the loop of the gateway stands. -/
inductive Loop (α β : Type)
  | idle
  /-- `_drain_send_queue` is about to take an entry. -/
  | draining
  | holding (entry : Entry α) (stage : Stage)
  | retrying (pass : Pass β)

/-- A call of `_forward_to_lxmf`. -/
structure Forward (ρ τ : Type) where
  text : τ
  /-- The recipients that were attempted, and those that are to come. -/
  attempted : List ρ := []
  remaining : List ρ
  /-- The last attempt has failed, and is to be deferred. -/
  failed : Option ρ := none
  /-- The call was left with an error. -/
  raised : Bool := false

variable {ρ τ α : Type}

/-- The gateway, with LXMF messages of `α`, and mesh texts of `τ` for recipients of `ρ`. -/
structure System (ρ τ α : Type) where
  sendQueue : Queue α := {}
  pendingLxmf : Queue (ρ × τ) := {}
  loop : Loop α (ρ × τ) := .idle
  forwards : List (Forward ρ τ) := []
  /-- An `_enqueue_lxmf_send` has raised. -/
  raised : Bool := false

inductive Event (α τ : Type)
  /-- A callback of LXMF: `_enqueue_lxmf_send`. -/
  | enqueueLxmfSend (content : α) (now : ℚ)
  /-- A callback of the mesh begins, attempts its next recipient, or defers it. -/
  | forward (text : τ)
  | attempt (i : ℕ) (sent : Bool)
  | defer (i : ℕ) (now : ℚ)
  /-- The loop drains: it drops what is out of date and takes an entry; the rate allows it or not;
      there is an interface or not; the command succeeds, was not started, or is uncertain. -/
  | drain
  | take (now : ℚ)
  | checkRate (allowed : Bool)
  | chooseInterface (connected : Bool)
  | sent (started succeeded : Bool)
  /-- The loop retries: it takes an entry, and attempts it. -/
  | retry (now : ℚ)
  | retake
  | reattempt (sent : Bool)

namespace System

variable (c : Config ρ) (s : System ρ τ α)

/-- The call number `i` goes on so. -/
def setForward (i : ℕ) (f : Forward ρ τ) : System ρ τ α :=
  { s with forwards := s.forwards.set i f }

/-- A deferral is known to the pass that is under way. -/
def noteDeferral : Loop α (ρ × τ) → Loop α (ρ × τ)
  | .retrying pass => .retrying { pass with deferred := true }
  | loop => loop

/-- A message of the mesh is deferred by the call number `i`. -/
def deferBy (i : ℕ) (now : ℚ) (f : Forward ρ τ) (recipient : ρ) : System ρ τ α :=
  match s.pendingLxmf.enqueue c.pendingLxmfMax now (recipient, f.text) with
  | none => s.setForward i { f with raised := true }
  | some pending =>
    { s.setForward i { f with failed := none } with
      pendingLxmf := pending, loop := noteDeferral s.loop }

/-- The entry goes back to the front of the send queue, and the drain ends. -/
def requeue (entry : Entry α) : System ρ τ α :=
  { s with sendQueue := s.sendQueue.appendleft entry, loop := .idle }

def next : Event α τ → Option (System ρ τ α)
  | .enqueueLxmfSend content now =>
    match s.sendQueue.enqueue c.sendQueueMax now content with
    | none => some { s with raised := true }
    | some queue => some { s with sendQueue := queue }
  | .forward text =>
    some { s with forwards := s.forwards ++ [⟨text, [], c.recipients, none, false⟩] }
  | .attempt i sent =>
    match s.forwards[i]? with
    | some ⟨text, attempted, recipient :: remaining, none, false⟩ =>
      some (s.setForward i ⟨text, attempted ++ [recipient], remaining,
        if sent then none else some recipient, false⟩)
    | _ => none
  | .defer i now =>
    match s.forwards[i]? with
    | some ⟨text, attempted, remaining, some recipient, false⟩ =>
      some (s.deferBy c i now ⟨text, attempted, remaining, some recipient, false⟩ recipient)
    | _ => none
  | .drain =>
    match s.loop with
    | .idle => some { s with loop := .draining }
    | _ => none
  | .take now =>
    match s.loop with
    | .draining =>
      match s.sendQueue.entries.dropWhile fun e => c.sendQueueTtl < now - e.enqueuedAt with
      | [] => some { s with sendQueue := { s.sendQueue with entries := [] }, loop := .idle }
      | entry :: rest =>
        some { s with
          sendQueue := { s.sendQueue with entries := rest }, loop := .holding entry .rateLimit }
    | _ => none
  | .checkRate allowed =>
    match s.loop with
    | .holding entry .rateLimit =>
      some (if allowed then { s with loop := .holding entry .interface } else s.requeue entry)
    | _ => none
  | .chooseInterface connected =>
    match s.loop with
    | .holding entry .interface =>
      some (if connected then { s with loop := .holding entry .sending } else s.requeue entry)
    | _ => none
  | .sent started succeeded =>
    match s.loop with
    | .holding entry .sending =>
      some (if succeeded then { s with loop := .draining }
        else if started then { s with loop := .idle } else s.requeue entry)
    | _ => none
  | .retry now =>
    match s.loop with
    | .idle => some { s with loop := .retrying { now, remaining := s.pendingLxmf.entries.length } }
    | _ => none
  | .retake =>
    match s.loop with
    | .retrying ⟨now, remaining + 1, none, putBack, deferred⟩ =>
      match s.pendingLxmf.entries with
      | [] => some { s with loop := .idle }
      | entry :: rest =>
        some { s with
          pendingLxmf := { s.pendingLxmf with entries := rest }
          loop := .retrying ⟨now, remaining, if c.pendingLxmfTtl < now - entry.enqueuedAt then none
            else some entry, putBack, deferred⟩ }
    | .retrying ⟨_, 0, none, _, _⟩ => some { s with loop := .idle }
    | _ => none
  | .reattempt sent =>
    match s.loop with
    | .retrying ⟨now, remaining, some entry, putBack, deferred⟩ =>
      some (if sent then { s with loop := .retrying ⟨now, remaining, none, putBack, deferred⟩ }
        else { s with
          pendingLxmf := s.pendingLxmf.append entry
          loop := .retrying ⟨now, remaining, none, putBack + 1, deferred⟩ })
    | _ => none

end System

/-- The gateway, from its start on. -/
def system (ρ τ α : Type) (c : Config ρ) : Transition (System ρ τ α) (Event α τ) :=
  .ofNext (· = {}) (System.next c)

end ReticulumPi.Gateway.Queues
