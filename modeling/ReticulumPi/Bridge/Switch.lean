import ReticulumPi.Lib.Codec
import ReticulumPi.Lib.Transition
import Mathlib.Algebra.Order.Ring.Rat

/-!
# The switch of the bridge, and its file

The operator pauses and resumes the bridge with `setRunning`, and the circuit
breaker pauses it when too many messages were relayed within a minute. A call
that changes the flag takes a snapshot of it under the lock, and writes the
snapshot to a file after it has released the lock: it fills a temporary file,
the same for all calls, and renames it. After a restart the bridge goes by the
file (`start`).

The threads interleave between these steps (`next`). A file is known by its
inode, since a thread goes on writing to the one it opened whatever has become
of its name.
-/

namespace ReticulumPi.Bridge

open PyJson PyCodec

/-! ## The file system -/

/-- The names `state_path + ".tmp"` and `state_path`, and what the inodes hold; those from `next`
    on are new. -/
structure Disk where
  tmp : Option ℕ
  file : Option ℕ
  contents : List (ℕ × List Byte) := []
  next : ℕ

namespace Disk

variable (d : Disk)

def content (inode : ℕ) : List Byte := (d.contents.lookup inode).getD []

/-- What is read under the name `state_path`, if there is a file. -/
def read : Option (List Byte) := d.file.map d.content

/-- `open(tmp, "w")`: the disk after it, and the inode. -/
def openTmp : Disk × ℕ :=
  match d.tmp with
  | some inode => ({ d with contents := (inode, []) :: d.contents }, inode)
  | none =>
    ({ d with
        tmp := some d.next, contents := (d.next, []) :: d.contents, next := d.next + 1 },
      d.next)

/-- What an open file holds comes to the disk when it is closed: over what stands there. -/
def write (inode : ℕ) (b : List Byte) : Disk :=
  { d with contents := (inode, b ++ (d.content inode).drop b.length) :: d.contents }

/-- `os.replace(tmp, self._state_path)`, which raises if there is no such file. -/
def replace : Option Disk :=
  d.tmp.map fun inode => { d with tmp := none, file := some inode }

/-- `os.unlink(tmp)` -/
def unlink : Disk := { d with tmp := none }

end Disk

/-! ## The state -/

/-- What a snapshot holds. The reason and the time may be what the file held. -/
structure RunState where
  running : Bool
  autoPausedReason : Value
  autoPausedAt : Value

def RunState.value (state : RunState) : Value :=
  .object [(text "running", .bool state.running),
    (text "auto_paused_reason", state.autoPausedReason),
    (text "auto_paused_at", state.autoPausedAt)]

structure Bridge where
  state : RunState
  recentRelays : List ℚ := []

/-- `_CIRCUIT_BREAKER_WINDOW` -/
def circuitBreakerWindow : ℚ := 60

namespace Bridge

/-- The locked part of `set_running`, at the given time. -/
def setRunning (bridge : Bridge) (running : Bool) (reason : Option Text) (time : Number) :
    Bridge :=
  if running then { state := ⟨true, .null, .null⟩, recentRelays := [] }
  else
    match reason with
    | some (c :: s) => { bridge with state := ⟨false, .string (c :: s), .number time⟩ }
    | _ => { bridge with state := { bridge.state with running := false } }

/-- The locked part of `_check_circuit_breaker`: no more than 10000 relays are kept. -/
def countRelay (bridge : Bridge) (now : ℚ) : Bridge :=
  let relays := bridge.recentRelays ++ [now]
  { bridge with
    recentRelays := (relays.drop (relays.length - 10000)).dropWhile
      (· < now - circuitBreakerWindow) }

end Bridge

/-! ## The threads -/

/-- Where a call stands. -/
inductive Pc
  /-- `_check_circuit_breaker` has read the clock. -/
  | check (now : ℚ)
  /-- `set_running` has yet to take the lock. -/
  | enter (running : Bool) (reason : Option Text)
  /-- The lock is released, and the snapshot is to be persisted. -/
  | persist (state : RunState)
  /-- The temporary file is open. -/
  | write (state : RunState) (inode : ℕ)
  /-- The temporary file is closed. -/
  | replace
  /-- Something was raised meanwhile. -/
  | unlink
  | finished

/-- The snapshot of the call has yet to reach the file. -/
def Pc.isPersisting : Pc → Bool
  | persist _ | write _ _ | replace | unlink => true
  | check _ | enter _ _ | finished => false

def Pc.isFinished : Pc → Bool
  | finished => true
  | _ => false

structure System where
  bridge : Bridge
  disk : Disk
  threads : List Pc := []

inductive Event
  /-- A thread calls `set_running`. -/
  | set (running : Bool) (reason : Option Text)
  /-- A thread calls `_check_circuit_breaker` at this time of the monotonic clock. -/
  | relayed (now : ℚ)
  /-- The call number `i` takes its next step, at this time. -/
  | step (i : ℕ) (time : Number)

namespace System

-- `_auto_pause_threshold`
variable (autoPauseThreshold : ℤ) (s : System)

/-- The call number `i` goes on there. -/
def goto (i : ℕ) (pc : Pc) : System := { s with threads := s.threads.set i pc }

/-- The next step of the call number `i`. -/
def advance (i : ℕ) (time : Number) : Pc → Option System
  | .check now =>
    if autoPauseThreshold ≤ 0 then s.goto i .finished
    else
      let bridge := s.bridge.countRelay now
      { s with bridge := bridge }.goto i
        (if autoPauseThreshold < bridge.recentRelays.length then
          .enter false (some (text "rate_limit"))
        else .finished)
  | .enter running reason =>
    let bridge := s.bridge.setRunning running reason time
    { s with bridge := bridge }.goto i
      (if s.bridge.state.running = running then .finished else .persist bridge.state)
  | .persist state =>
    { s with disk := s.disk.openTmp.1 }.goto i (.write state s.disk.openTmp.2)
  | .write state inode =>
    match encode (state.value.dumps spaced) with
    | some b => { s with disk := s.disk.write inode b }.goto i .replace
    | none => s.goto i .unlink
  | .replace =>
    match s.disk.replace with
    | some disk => { s with disk := disk }.goto i .finished
    | none => s.goto i .unlink
  | .unlink => { s with disk := s.disk.unlink }.goto i .finished
  | .finished => none

def next : Event → Option System
  | .set running reason => some { s with threads := s.threads ++ [.enter running reason] }
  | .relayed now => some { s with threads := s.threads ++ [.check now] }
  | .step i time =>
    match s.threads[i]? with
    | none => none
    | some pc => s.advance autoPauseThreshold i time pc

end System

/-! ## A restart -/

/-- `bytes.decode("utf-8")` of the file, which no surrogate passes. -/
def decodeFile (b : List Byte) : Option Text :=
  (decode8 b).filter fun s => s.all fun c => !(IsHigh c.val || IsLow c.val)

variable (isZero : Number → Bool)

/-- `_load_state`, and what it makes of the reason and the time of the last pause; `isZero` says
    which numbers Python takes as zero. A document other than an object raises. -/
def loadState (defaultRunning : Bool) (file : Option (List Byte)) :
    Except Unit RunState :=
  match file.bind fun b => (decodeFile b).bind loads with
  | none => .ok ⟨defaultRunning, .null, .null⟩
  | some (.object l) =>
    .ok ⟨((get? l (text "running")).map (·.truthy isZero)).getD defaultRunning,
      (get? l (text "auto_paused_reason")).getD .null,
      (get? l (text "auto_paused_at")).getD .null⟩
  | some _ => .error ()

/-- `start`: the bridge goes by the file. -/
def System.start (defaultRunning : Bool) (disk : Disk) :
    Except Unit System :=
  (loadState isZero defaultRunning disk.read).map fun state => ⟨⟨state, []⟩, disk, []⟩

/-- The bridge from a start on. -/
def system (defaultRunning : Bool) (autoPauseThreshold : ℤ) :
    Transition System Event :=
  .ofNext (fun s => ∃ disk, System.start isZero defaultRunning disk = .ok s)
    (System.next autoPauseThreshold)

end ReticulumPi.Bridge
