import ReticulumPi.Gateway.Fence
import ReticulumPi.Gateway.Forward
import ReticulumPi.Lib.Transition

/-!
# Commands on the serial interface

A thread that has something to do on the serial interface gives it to a worker
(`_run_serial_command`) and waits for it, up to a timeout. One lock admits one
command at a time; the caller takes it and the worker releases it. The worker
asks whether the interface is still current, notes that it has started, and
calls back; a caller that has waited in vain poisons the generation and reports
whether the worker has started.

The connection loop sends the queued texts as such commands, and puts a text
back when the command has not started (`Drain`).
-/

namespace ReticulumPi.Gateway

/-- Where a caller stands. -/
inductive Caller
  /-- It has yet to ask whether the generation is current. -/
  | entry
  /-- It has yet to take the lock. -/
  | acquire
  /-- It has the lock, and looks for a health probe under way. -/
  | gate
  | start
  | wait
  | timedOut
  | readStarted
  | returned (r : CommandResult)
  deriving DecidableEq

/-- Where a worker stands. -/
inductive Worker
  | absent
  /-- It has yet to ask whether the generation is current. -/
  | check
  /-- It has yet to note that it has started. -/
  | mark
  | call
  | running
  /-- The callback has returned, and it asks again. -/
  | recheck
  | release
  | signal
  | exited
  deriving DecidableEq

/-- A call of `_run_serial_command` and its worker. -/
structure Call where
  target : Opened
  healthProbe : Bool := false
  poisonOnTimeout : Bool := true
  /-- The queued text that the callback sends, if any. -/
  item : Option ℕ := none
  caller : Caller := .entry
  worker : Worker := .absent
  started : Bool := false
  stale : Bool := false
  error : Bool := false
  done : Bool := false
  /-- How often the callback was called, and whether the generation was current when it was called
      and when it returned. -/
  ran : ℕ := 0
  beganCurrent : Bool := false
  endedCurrent : Bool := false
  deriving DecidableEq

namespace Call

/-- The result of a worker that has signalled that it is done. -/
def result (c : Call) : CommandResult :=
  if !c.started then ⟨.stale, false⟩
  else if c.stale then ⟨.stale, true⟩
  else if c.error then ⟨.error, true⟩
  else ⟨.success, true⟩

end Call

/-- The queue of texts and the thread that drains it: the text it has taken and the command it
    waits for. A text is known by a number. -/
structure Drain where
  queue : List ℕ := []
  held : Option ℕ := none
  calling : Option ℕ := none
  nextItem : ℕ := 0
  /-- The texts that were passed to `sendText`, the latest first. -/
  sends : List ℕ := []
  deriving DecidableEq

structure Commands where
  fence : Fence
  /-- The call that holds `_serial_operation_lock`. -/
  operationLock : Option ℕ := none
  calls : List Call := []
  drain : Drain := {}
  deriving DecidableEq

inductive CommandEvent
  /-- A thread passes through a locked section. -/
  | fence (op : Fence.Op)
  /-- A thread calls `_run_serial_command`. -/
  | call (target : Opened) (healthProbe poisonOnTimeout : Bool)
  /-- The caller of the call `i` goes on; `env` says whether a health probe is under way, whether
      starting the thread fails, and whether the wait has timed out. -/
  | caller (i : ℕ) (env : Bool)
  /-- The worker of the call `i` goes on; `raises` says how the callback ends. -/
  | worker (i : ℕ) (raises : Bool)
  | enqueue
  /-- The oldest text of the queue is dropped: the queue is full, or the text has expired. -/
  | dropOldest
  /-- The drain takes a text. -/
  | take
  /-- The drain puts it back: messages come too early, or there is no interface. -/
  | putBack
  /-- The drain sends it on a serial interface. -/
  | send (target : Opened)
  /-- The drain sends it on an MQTT interface, if that is still current. -/
  | sendDirect (current : Bool)
  /-- The command that the drain waits for has returned. -/
  | sent

namespace Commands

variable (s : Commands)

def setCall (i : ℕ) (c : Call) : Commands := { s with calls := s.calls.set i c }

/-- The next step of a caller. -/
def callerStep (i : ℕ) (c : Call) (env : Bool) : Option Commands :=
  match c.caller with
  | .entry =>
    s.setCall i { c with
      caller := if s.fence.isCurrent c.target then .acquire else .returned ⟨.stale, false⟩ }
  | .acquire =>
    match s.operationLock with
    | some _ => s.setCall i { c with caller := .returned ⟨.busy, false⟩ }
    | none => { s with operationLock := some i }.setCall i { c with caller := .gate }
  | .gate =>
    if !c.healthProbe && env then
      { s with operationLock := none }.setCall i { c with caller := .returned ⟨.busy, false⟩ }
    else s.setCall i { c with caller := .start }
  | .start =>
    if env then
      { s with operationLock := none }.setCall i { c with caller := .returned ⟨.error, false⟩ }
    else s.setCall i { c with caller := .wait, worker := .check }
  | .wait =>
    if c.done then s.setCall i { c with caller := .returned c.result }
    else if env then s.setCall i { c with caller := .timedOut }
    else none
  | .timedOut =>
    if c.poisonOnTimeout then
      (s.fence.apply (.poison c.target)).map fun f =>
        { s with fence := f }.setCall i { c with caller := .readStarted }
    else s.setCall i { c with caller := .readStarted }
  | .readStarted => s.setCall i { c with caller := .returned ⟨.timeout, c.started⟩ }
  | .returned _ => none

/-- The next step of a worker. -/
def workerStep (i : ℕ) (c : Call) (raises : Bool) : Option Commands :=
  match c.worker with
  | .absent => none
  | .check =>
    s.setCall i { c with worker := if s.fence.isCurrent c.target then .mark else .release }
  | .mark => s.setCall i { c with worker := .call, started := true }
  | .call =>
    { s with drain := { s.drain with sends := c.item.toList ++ s.drain.sends } }.setCall i
      { c with worker := .running, ran := c.ran + 1, beganCurrent := s.fence.isCurrent c.target }
  | .running =>
    if raises then s.setCall i { c with worker := .release, error := true }
    else s.setCall i { c with worker := .recheck, endedCurrent := s.fence.isCurrent c.target }
  | .recheck =>
    s.setCall i { c with worker := .release, stale := !s.fence.isCurrent c.target }
  | .release => { s with operationLock := none }.setCall i { c with worker := .signal }
  | .signal => s.setCall i { c with worker := .exited, done := true }
  | .exited => none

/-- The next step of the thread that drains the queue, or of one that fills it. -/
def drainStep (d : Drain) : CommandEvent → Option Drain
  | .enqueue => some { d with queue := d.queue ++ [d.nextItem], nextItem := d.nextItem + 1 }
  | .dropOldest => some { d with queue := d.queue.tail }
  | .take =>
    match d.held, d.queue with
    | none, item :: queue => some { d with held := some item, queue := queue }
    | _, _ => none
  | .putBack =>
    match d.held, d.calling with
    | some item, none => some { d with held := none, queue := item :: d.queue }
    | _, _ => none
  | .sendDirect current =>
    match d.held, d.calling with
    | some item, none =>
      if current then some { d with held := none, sends := item :: d.sends }
      else some { d with held := none, queue := item :: d.queue }
    | _, _ => none
  | _ => none

def next : CommandEvent → Option Commands
  | .fence op => (s.fence.apply op).map fun f => { s with fence := f }
  | .call target healthProbe poisonOnTimeout =>
    some { s with
      calls := s.calls ++
        [{ target := target, healthProbe := healthProbe, poisonOnTimeout := poisonOnTimeout }] }
  | .caller i env =>
    match s.calls[i]? with
    | some c => s.callerStep i c env
    | none => none
  | .worker i raises =>
    match s.calls[i]? with
    | some c => s.workerStep i c raises
    | none => none
  | .send target =>
    match s.drain.held, s.drain.calling with
    | some item, none =>
      some { s with
        calls := s.calls ++ [{ target := target, item := some item }]
        drain := { s.drain with calling := some s.calls.length } }
    | _, _ => none
  | .sent =>
    match s.drain.held, s.drain.calling with
    | some item, some i =>
      match (s.calls[i]?).map Call.caller with
      | some (.returned r) =>
        if !r.succeeded && !r.started then
          some { s with drain := { s.drain with
            held := none, calling := none, queue := item :: s.drain.queue } }
        else some { s with drain := { s.drain with held := none, calling := none } }
      | _ => none
    | _, _ => none
  | e => (drainStep s.drain e).map fun d => { s with drain := d }

/-- A start. -/
def start (serialMode : Bool) : Commands where
  fence := .start serialMode

end Commands

/-- The commands of a gateway. -/
def commands (serialMode : Bool) : Transition Commands CommandEvent :=
  .ofNext (· = .start serialMode) Commands.next

end ReticulumPi.Gateway
