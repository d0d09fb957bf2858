import ReticulumPi.Lib.Prog
import ReticulumPi.Lib.PyStr

/-!
# The durable allocator of packet identifiers

`_DurablePacketIdAllocator` hands out the packet identifiers of one MQTT node.
Blocks of them are reserved in a state file before any is used, under an
exclusive lock on a file beside it: the state holds the node's number, the
*high watermark* up to which identifiers are reserved, and whether the
enrolment of the node, which also writes the number to a file of its own, is
complete.

The operations are programs (`Prog`) on the two files and the allocator they
are called on; a `World` decides the random numbers and what goes wrong in
locking, reading and writing. A file is replaced in one step.
-/

namespace ReticulumPi.Meshtastic

open PyStr

/-- The exceptions: `_PacketIdStateError`, `_PacketIdExhaustedError`, and what the system raises. -/
inductive Error
  | stateError (message : String)
  | exhausted (message : String)
  | osError
deriving DecidableEq

/-- A value in the state file, as far as it matters: `other` is any but a
    number, a truth value or a text. -/
inductive Json
  | int (n : ℤ)
  | float (q : ℚ)
  | bool (b : Bool)
  | str (s : String)
  | other
deriving DecidableEq

/-- An object with exactly the keys of the state. -/
structure StateObject where
  schema : Json
  nodeNum : Json
  highWatermark : Json
  enrollment : Json
deriving DecidableEq

/-- The state file: it may be absent, not be readable as JSON, or be something
    else than an object with the keys of the state. -/
inductive StateFile
  | absent
  | unreadable
  | foreign
  | object (o : StateObject)
deriving DecidableEq

/-- The file of the node number. -/
inductive NodeFile
  | absent
  | unreadable
  | text (s : List Char)
deriving DecidableEq

def stateSchema : ℤ := 1
def maxPacketId : ℕ := 0xFFFFFFFF
def minNodeNum : ℕ := 0x10000000
def maxNodeNum : ℕ := 0x7FFFFFFF

/-- The values of `enrollment`. -/
inductive Enrollment
  | pending
  | complete
deriving DecidableEq

def Enrollment.text : Enrollment → String
  | .pending => "pending_node_commit"
  | .complete => "complete"

/-- A state that has passed the checks, with the schema as it stood. -/
structure State where
  schema : Json
  nodeNum : ℕ
  highWatermark : ℕ
  enrollment : Enrollment
deriving DecidableEq

/-- The instance variables of an allocator; a block holds at least one
    identifier, and not all of them. -/
structure Allocator where
  blockSize : ℕ
  nextId : ℕ := 0
  remaining : ℕ := 0
  nodeNum : ℕ := 0
  blockSize_pos : 1 ≤ blockSize
  blockSize_lt : blockSize < maxPacketId

/-- What the allocators do not decide, by the instant at which they ask. The
    random source stays in its range, and draws in a row from it, as often as
    `redraws` says more than once, end with the first other than a given one. -/
structure World where
  randbelow : ℕ → ℕ
  redraws : ℕ → Option ℕ → ℕ
  lockFault : ℕ → Fault
  unlockFault : ℕ → Fault
  readFault : ℕ → Fault
  writeFault : ℕ → Fault
  randbelow_lt : ∀ n, randbelow n < 0x70000000
  redraws_ne : ∀ n previous,
    some (minNodeNum + randbelow (n + redraws n previous)) ≠ previous
  redraws_first : ∀ n previous, ∀ k < redraws n previous,
    some (minNodeNum + randbelow (n + k)) = previous

/-- What an operation works on: the files, the instant, and its allocator. -/
structure Session where
  state : StateFile
  node : NodeFile
  tick : ℕ
  alloc : Allocator

/-- The programs of the allocator. -/
abbrev AProg (α : Type) := Prog Session Error α

/-! ## The contents of the files -/

/-- A schema that equals the known one; a truth value does not. -/
def Json.isSchema : Json → Bool
  | .int n => n = stateSchema
  | .float q => q = stateSchema
  | _ => false

/-- An integer between two bounds. -/
def Json.natIn (lo hi : ℕ) : Json → Option ℕ
  | .int n => if lo ≤ n ∧ n ≤ hi then some n.toNat else none
  | _ => none

def enrollmentOf : Json → Option Enrollment
  | .str s =>
    if s = Enrollment.pending.text then some .pending
    else if s = Enrollment.complete.text then some .complete
    else none
  | _ => none

/-- The checks of `_load_state_locked`. -/
def checkState (o : StateObject) : Except String State :=
  if ¬ o.schema.isSchema then .error "MQTT packet-ID state version is unsupported"
  else match o.nodeNum.natIn minNodeNum maxNodeNum with
    | none => .error "MQTT packet-ID state has an invalid node number"
    | some nodeNum => match o.highWatermark.natIn 1 maxPacketId with
      | none => .error "MQTT packet-ID state has an invalid high watermark"
      | some highWatermark => match enrollmentOf o.enrollment with
        | none => .error "MQTT packet-ID state has an invalid enrollment status"
        | some enrollment => .ok ⟨o.schema, nodeNum, highWatermark, enrollment⟩

/-- `_load_state_locked`, once the file is read. -/
def loadState : StateFile → Except String State
  | .object o => checkState o
  | .foreign => .error "MQTT packet-ID state has an invalid schema"
  | _ => .error "MQTT packet-ID state is unreadable; refusing nonce reuse"

/-- The object of a state. -/
def statePayload (s : State) : StateObject where
  schema := s.schema
  nodeNum := .int s.nodeNum
  highWatermark := .int s.highWatermark
  enrollment := .str s.enrollment.text

/-- The node number in a text. -/
def parseNodeNum (text : List Char) : Except String ℕ :=
  match parseHex8 (strip text) with
  | none => .error "expected exactly eight hexadecimal digits"
  | some n =>
    if minNodeNum ≤ n ∧ n ≤ maxNodeNum then .ok n
    else .error "node number is outside the private MQTT identity range"

variable (w : World)

/-! ## Locks, reads and writes -/

def nextTick : AProg ℕ := do
  let s ← get
  set { s with tick := s.tick + 1 }
  pure s.tick

def modifyAlloc (f : Allocator → Allocator) : AProg Unit :=
  modify fun s => { s with alloc := f s.alloc }

def getAlloc : AProg Allocator := do
  let s ← get
  pure s.alloc

/-- A step that may go wrong. -/
def step (fault : ℕ → Fault) (effect : Session → Session) : AProg Unit := do
  let t ← nextTick
  Prog.perform (fault t) .osError effect

def underFileLock {α : Type} (callback : AProg α) : AProg α := do
  step w.lockFault id
  Prog.tryFinally callback (step w.unlockFault id)

def raiseFor {α : Type} : Except String α → AProg α
  | .error message => throw (.stateError message)
  | .ok a => pure a

/-- `_load_state_locked`. -/
def loadStateLocked : AProg State := do
  tryCatch (step w.readFault id) fun _ =>
    throw (.stateError "MQTT packet-ID state is unreadable; refusing nonce reuse")
  let s ← get
  raiseFor (loadState s.state)

/-- Reading the file of the node number, when it is there. -/
def readNodeNum (file : NodeFile) : AProg (Except String ℕ) :=
  match file with
  | .text text => tryCatch (do step w.readFault id; pure (parseNodeNum text)) fun _ =>
      pure (.error "unreadable")
  | _ => pure (.error "unreadable")

/-- `_load_node_num_locked`. Unless `strict`, it raises nothing. -/
def loadNodeNumLocked (strict : Bool) : AProg (Option ℕ) := do
  let s ← get
  if s.node = .absent then
    if strict then throw (.stateError "persistent MQTT node number is missing")
    else pure none
  else do
    let n ← readNodeNum w s.node
    match n with
    | .ok n => pure (some n)
    | .error message =>
      if strict then
        throw (.stateError ("persistent MQTT node number is invalid: " ++ message))
      else pure none

def writeStateLocked (state : State) : AProg Unit :=
  step w.writeFault fun s => { s with state := .object (statePayload state) }

def writeNodeNumLocked (nodeNum : ℕ) : AProg Unit :=
  step w.writeFault fun s => { s with node := .text (formatHex8 nodeNum ++ ['\n']) }

/-- `_new_node_num`: draw until the number is not `previous`. -/
def newNodeNum (previous : Option ℕ) : AProg ℕ := do
  let t ← nextTick
  pure (minNodeNum + w.randbelow (t + w.redraws t previous))

/-! ## The operations -/

/-- `_new_initial_range`, with the high watermark it is reserved by. -/
def newInitialRange (a : Allocator) : ℕ × ℕ × ℕ := (1, a.blockSize, a.blockSize)

/-- Enrol the node of a new number. The state comes first, and the node's own
    file only then: what is left behind in between is pending. -/
def enrollAs (nodeNum : ℕ) : AProg Unit := do
  let a ← getAlloc
  let (nextId, remaining, highWatermark) := newInitialRange a
  writeStateLocked w ⟨.int stateSchema, nodeNum, highWatermark, .pending⟩
  writeNodeNumLocked w nodeNum
  writeStateLocked w ⟨.int stateSchema, nodeNum, highWatermark, .complete⟩
  modifyAlloc fun a => { a with nodeNum := nodeNum, nextId := nextId, remaining := remaining }

/-- The part of `_initialize` where there is no state. -/
def enroll : AProg Unit := do
  let legacyNodeNum ← loadNodeNumLocked w false
  let nodeNum ← newNodeNum w legacyNodeNum
  enrollAs w nodeNum

def reserveAfterLocked (state : State) : AProg Unit :=
  if maxPacketId ≤ state.highWatermark then
    throw (.exhausted ("Meshtastic MQTT packet-ID nonce domain is exhausted; " ++
      "rotate the MQTT node identity or channel key and explicitly " ++
      "re-enroll packet-ID state before continuing"))
  else do
    let a ← getAlloc
    let remainingDomain := maxPacketId - state.highWatermark
    let reservationSize := min a.blockSize remainingDomain
    writeStateLocked w { state with highWatermark := state.highWatermark + reservationSize }
    modifyAlloc fun a =>
      { a with nextId := state.highWatermark + 1, remaining := reservationSize }

/-- Set the allocator's node, and reserve its block. -/
def openBlock (state : State) : AProg Unit := do
  modifyAlloc fun a => { a with nodeNum := state.nodeNum }
  reserveAfterLocked w state

/-- The part of `_initialize` where there is a state. A pending enrolment is
    completed with the node number of the state. -/
def takeUp (state : State) : AProg Unit :=
  match state.enrollment with
  | .pending => do
    writeNodeNumLocked w state.nodeNum
    writeStateLocked w { state with enrollment := .complete }
    openBlock w { state with enrollment := .complete }
  | .complete => do
    let persistedNodeNum ← loadNodeNumLocked w true
    if persistedNodeNum ≠ some state.nodeNum then
      throw (.stateError "persistent MQTT node number does not match packet-ID state")
    else openBlock w state

def initializeLocked : AProg Unit := do
  let s ← get
  if s.state = .absent then enroll w
  else do
    let state ← loadStateLocked w
    takeUp w state

/-- `_initialize`, which constructs the allocator. -/
def construct : AProg Unit := underFileLock w (initializeLocked w)

def reserveLocked : AProg Unit := do
  let state ← loadStateLocked w
  let a ← getAlloc
  if state.enrollment ≠ .complete then
    throw (.stateError "MQTT packet-ID enrollment is incomplete")
  else if state.nodeNum ≠ a.nodeNum then
    throw (.stateError "MQTT packet-ID state changed identity")
  else do
    let persistedNodeNum ← loadNodeNumLocked w true
    if persistedNodeNum ≠ some a.nodeNum then
      throw (.stateError "persistent MQTT node number does not match packet-ID state")
    else reserveAfterLocked w state

def reserveMore : AProg Unit := underFileLock w (reserveLocked w)

/-- Hand out the next identifier of the block. -/
def emit : AProg ℕ := do
  let a ← getAlloc
  if ¬(1 ≤ a.nextId ∧ a.nextId ≤ maxPacketId) then
    throw (.stateError "allocator attempted to emit an invalid packet ID")
  else do
    modifyAlloc fun a => { a with nextId := a.nextId + 1, remaining := a.remaining - 1 }
    pure a.nextId

def reserveIfEmpty : AProg Unit := do
  let a ← getAlloc
  if a.remaining = 0 then reserveMore w else pure ()

def take : AProg ℕ := do
  reserveIfEmpty w
  emit

end ReticulumPi.Meshtastic
