import ReticulumPi.Lib.Prog

/-!
# Restoring an identity

`restore_identity` of `identity_manager.py`, with the functions it calls, as a program on
the files of the directories of the identity and of its backup. Each call of the
operating system is a step, named by the place in the program from which it comes and by
what it does, and an exception may occur at one step of a run, before the step has taken
effect or after it.

What `RNS.Identity.from_file` makes of a file is a parameter, as is whether the directory
of the identity and its lock file pass the checks. The names of `mkstemp` are new, and
directories, modes and the lock file itself are left out.
-/

namespace ReticulumPi.Identity

abbrev Bytes := List UInt8

/-! ## Files -/

inductive Path
  | named (path : String)
  /-- The name of the `n`-th temporary file. -/
  | temporary (n : ℕ)
  deriving DecidableEq

/-- What a path names. -/
inductive Node
  /-- A regular file with the number of its links. -/
  | file (bytes : Bytes) (links : ℕ)
  /-- A symbolic link, which may be to a file. -/
  | link (toFile : Bool)
  | directory
  deriving DecidableEq

/-- The files, and the local variables of `restore_identity` that its `finally` reads. -/
structure Machine where
  files : Path → Option Node
  /-- How many names `mkstemp` has given. -/
  temps : ℕ := 0
  stagedPath : Option Path := none
  restoreSucceeded : Bool := false

namespace Machine

def put (s : Machine) (path : Path) (node : Option Node) : Machine :=
  { s with files := Function.update s.files path node }

/-- `os.path.isfile`. -/
def isFile (s : Machine) (path : Path) : Bool :=
  match s.files path with
  | some (.file _ _) => true
  | some (.link toFile) => toFile
  | _ => false

end Machine

/-! ## Exceptions -/

/-- The exceptions the program tells apart. -/
inductive Raised
  | fileNotFound
  /-- Another `OSError`. -/
  | osError
  | valueError
  | identityPersistence
  /-- Another `Exception`. -/
  | exception
  /-- A `BaseException`, such as `KeyboardInterrupt`. -/
  | baseException
  deriving DecidableEq

namespace Raised

def isOSError (e : Raised) : Bool := e = .fileNotFound ∨ e = .osError

def isException (e : Raised) : Bool := e ≠ .baseException

end Raised

/-- The parts of `restore_identity` that call the operating system. -/
inductive Place
  | lock | isBackup | backup | staged | hadOriginal | original | safety | publish | restored
  | rollback | remove | cleanup | drop
  deriving DecidableEq

inductive Op
  | ensureParent | stageParent | mkstemp | open | fstat | fchmod | fsync | read | write | close
  | replace | chmod | fsyncDirectory | unlink | isfile | lexists | fromFile
  | checks | flock | unlock
  deriving DecidableEq

/-- Where an exception occurs in a run. -/
structure Failure where
  place : Place
  op : Op
  after : Bool
  raised : Raised

/-- A call, with what the rest of the system is like. -/
structure Call (Id : Type) where
  identityPath : String
  backupPath : String
  /-- `{os.getpid()}-{time.time_ns()}`. -/
  stamp : String
  /-- What `RNS.Identity.from_file` makes of the bytes of a file. -/
  fromFile : Bytes → Except Raised (Option Id)
  /-- The exceptions that it turns into `None`. -/
  catches : Raised → Bool
  /-- `_identity_hash`. -/
  identityHash : Id → Option Bytes
  sha256 : Bytes → Bytes
  /-- `_ensure_parent` accepts the directory of the identity. -/
  accepted : Bool
  /-- The lock file is a single-link regular file, or can become one. -/
  lockable : Bool
  failure : Option Failure

def maxIdentityBytes : ℕ := 1024 * 1024

namespace Call

variable {Id α : Type} (call : Call Id)

def identity : Path := .named call.identityPath

def backup : Path := .named call.backupPath

/-- `safety_path`. -/
def safetyPath : String := call.identityPath ++ ".pre-restore-" ++ call.stamp

def safety : Path := .named call.safetyPath

abbrev M := Prog Machine Raised

variable (place : Place)

/-- A step with its effect, at which the exception of the run may occur. -/
def step (op : Op) (act : Machine → Machine) : M Unit :=
  match call.failure with
  | some f =>
    if f.place = place ∧ f.op = op then
      Prog.perform (if f.after then .raisesAfter else .raisesBefore) f.raised act
    else modify act
  | none => modify act

/-- `except OSError as exc: raise IdentityPersistenceError`. -/
def onOSError (x : M α) : M α :=
  tryCatch x fun e => throw (if e.isOSError then .identityPersistence else e)

/-- `except Exception as exc: raise IdentityPersistenceError`. -/
def onException (x : M α) : M α :=
  tryCatch x fun e => throw (if e.isException then .identityPersistence else e)

/-- `with contextlib.suppress(FileNotFoundError)`. -/
def suppressNotFound (x : M Unit) : M Unit :=
  tryCatch x fun e => if e = .fileNotFound then pure () else throw e

/-! ## Steps on files -/

/-- `os.path.isfile` and `os.path.lexists`, for which a failing `stat` is a missing file. -/
def test (op : Op) (holds : Machine → Bool) : M Bool :=
  tryCatch (do
    call.step place op id
    return holds (← get)) fun e =>
      if e.isOSError ∨ e = .valueError then pure false else throw e

def unlink (place : Place) (path : Path) : M Unit := do
  match (← get).files path with
  | none => throw .fileNotFound
  | some .directory => throw .osError
  | some _ => call.step place .unlink (·.put path none)

def replace (place : Place) (src dest : Path) : M Unit := do
  let s ← get
  match s.files src, s.files dest with
  | none, _ => throw .fileNotFound
  | some _, some .directory => throw .osError
  | some node, _ => call.step place .replace fun s => (s.put src none).put dest (some node)

/-- `_ensure_parent`, called from the function of the step `op`. -/
def ensureParent (op : Op) : M Unit :=
  onOSError (do
    call.step place op id
    if !call.accepted then throw .osError)

/-- `_fsync_directory`. -/
def fsyncDirectory (place : Place) : M Unit := call.step place .fsyncDirectory id

/-- `_unlink_if_present`. -/
def unlinkIfPresent (path : Path) : M Unit :=
  suppressNotFound (call.unlink place path)

/-- `os.open` with `O_NOFOLLOW`. -/
def openFile (path : Path) : M Unit := do
  match (← get).files path with
  | none => throw .fileNotFound
  | some (.link _) => throw .osError
  | some _ => call.step place .open id

/-- `_read_identity_bytes`. -/
def readIdentityBytes (path : Path) : M Bytes := do
  onOSError (call.openFile place path)
  Prog.tryFinally (do
    call.step place .fstat id
    match (← get).files path with
    | some (.file bytes 1) =>
      onOSError (call.step place .fchmod id)
      onOSError (call.step place .fsync id)
      call.step place .read id
      if maxIdentityBytes < bytes.length then throw .identityPersistence
      return bytes
    | _ => throw .identityPersistence)
    (call.step place .close id)

/-- `tempfile.mkstemp`. -/
def mkstemp (place : Place) : M Path := do
  let path := Path.temporary (← get).temps
  call.step place .mkstemp fun s =>
    { s.put path (some (.file [] 1)) with temps := s.temps + 1 }
  return path

/-- `_stage_identity_bytes`. -/
def stageIdentityBytes (payload : Bytes) : M Path := do
  call.ensureParent place .stageParent
  let stagedPath ← call.mkstemp place
  tryCatch (do
    call.step place .fchmod id
    call.step place .write (·.put stagedPath (some (.file payload 1)))
    call.step place .fsync id) fun e => do
      if !e.isException then throw e
      call.step place .close id
      call.unlinkIfPresent place stagedPath
      throw .identityPersistence
  call.step place .close id
  return stagedPath

/-- `_atomic_identity_bytes`; once the file has been replaced there is none to unlink. -/
def atomicIdentityBytes (payload : Bytes) (destination : Path) : M Unit := do
  call.ensureParent place .ensureParent
  let stagedPath ← call.stageIdentityBytes place payload
  tryCatch (call.replace place stagedPath destination) fun e => do
    if !e.isException then throw e
    call.unlinkIfPresent place stagedPath
    throw .identityPersistence
  onException (do
    call.step place .chmod id
    call.fsyncDirectory place)

/-- `RNS.Identity.from_file`. -/
def identityFromFile (path : Path) : M (Option Id) := do
  match (← get).files path with
  | some (.file bytes _) =>
    tryCatch (do
      call.step place .fromFile id
      match call.fromFile bytes with
      | .ok parsed => return parsed
      | .error e => throw e) fun e => if call.catches e then pure none else throw e
  | _ => return none

/-! ## The lock -/

/-- The end of `_identity_lock`. -/
def release : M Unit := do
  tryCatch (call.step .lock .unlock id) fun e => if e.isOSError then pure () else throw e
  call.step .lock .close id

/-- `with _identity_lock(identity_path)`. -/
def withLock (body : M α) : M α := do
  call.ensureParent .lock .ensureParent
  onOSError (call.step .lock .open id)
  Prog.tryFinally (onOSError (do
    call.step .lock .checks id
    if !call.lockable then throw .identityPersistence
    call.step .lock .flock id
    body)) call.release

/-! ## The restoration -/

/-- The backup is read, staged and parsed. -/
def stageCandidate : M (Bytes × Path × Id) := do
  let candidateBytes ← call.readIdentityBytes .backup call.backup
  let stagedPath ← call.stageIdentityBytes .staged candidateBytes
  tryCatch (do
    match ← onException (call.identityFromFile .staged stagedPath) with
    | none => throw .identityPersistence
    | some candidate => return (candidateBytes, stagedPath, candidate)) fun e => do
      call.unlinkIfPresent .staged stagedPath
      throw e

/-- The safety copy of the original is made. -/
def copyOriginal (stagedPath : Path) : M Unit :=
  tryCatch (do
    let originalBytes ← call.readIdentityBytes .original call.identity
    call.atomicIdentityBytes .safety originalBytes call.safety) fun e => do
      call.unlinkIfPresent .staged stagedPath
      throw e

/-- What has been restored is the candidate. -/
def verify (candidateBytes restoredBytes : Bytes) (candidate restored : Id) : Bool :=
  call.sha256 restoredBytes = call.sha256 candidateBytes ∧
    (call.identityHash candidate = none ∨ call.identityHash restored = none ∨
      call.identityHash restored = call.identityHash candidate)

/-- The candidate takes the place of the original, and is read back. -/
def publish (candidateBytes : Bytes) (stagedPath : Path) (candidate : Id) : M Id := do
  call.replace .publish stagedPath call.identity
  modify fun s => { s with stagedPath := none }
  call.step .publish .chmod id
  call.fsyncDirectory .publish
  let restoredBytes ← call.readIdentityBytes .restored call.identity
  let restoredStage ← call.stageIdentityBytes .restored restoredBytes
  let parsed ← Prog.tryFinally (onException (call.identityFromFile .restored restoredStage))
    (call.unlinkIfPresent .restored restoredStage)
  match parsed with
  | none => throw .identityPersistence
  | some restored =>
    if !call.verify candidateBytes restoredBytes candidate restored then
      throw .identityPersistence
    modify fun s => { s with restoreSucceeded := true }
    return restored

/-- The original is put back, from the safety copy, which is copied and not moved. -/
def rollback : M Unit :=
  tryCatch (do
    let originalBytes ← call.readIdentityBytes .rollback call.safety
    call.atomicIdentityBytes .rollback originalBytes call.identity
    call.unlink .rollback call.safety
    call.fsyncDirectory .rollback) fun _ => throw .identityPersistence

/-- What the failure of the restoration undoes. -/
def undo (hadOriginal : Bool) : M Unit := do
  if hadOriginal then
    if ← call.test .rollback .isfile (·.isFile call.safety) then call.rollback
  else
    suppressNotFound (do
      call.unlink .remove call.identity
      call.fsyncDirectory .remove)

/-- The `finally` of the restoration. -/
def cleanUp : M Unit := do
  match (← get).stagedPath with
  | some stagedPath => call.unlinkIfPresent .cleanup stagedPath
  | none => pure ()
  if (← get).restoreSucceeded then
    suppressNotFound (do
      call.unlink .drop call.safety
      call.fsyncDirectory .drop)

/-- The candidate takes the place of the original, or this is undone. -/
def replaceOriginal (candidateBytes : Bytes) (stagedPath : Path) (candidate : Id)
    (hadOriginal : Bool) : M Id :=
  Prog.tryFinally
    (tryCatch (call.publish candidateBytes stagedPath candidate) fun e => do
      call.undo hadOriginal
      throw e)
    call.cleanUp

/-- What is done under the lock. -/
def restoreLocked : M Id := do
  if !(← call.test .isBackup .isfile (·.isFile call.backup)) then throw .identityPersistence
  let (candidateBytes, stagedPath, candidate) ← call.stageCandidate
  modify fun s => { s with stagedPath := some stagedPath }
  let hadOriginal ← call.test .hadOriginal .lexists fun s => (s.files call.identity).isSome
  if hadOriginal then call.copyOriginal stagedPath
  call.replaceOriginal candidateBytes stagedPath candidate hadOriginal

def restoreIdentity : M Id := call.withLock call.restoreLocked

end Call

end ReticulumPi.Identity
