import Mathlib.Data.List.DropRight
import ReticulumPi.Lib.Prog

/-!
# Storing a received file

`_store_received_file` of the file transfer plugin, as a program on the entries
of the shared directory. Each call of the operating system is a step; before
each, others may have created entries of their own, and one step of a run may
fail. A step that fails has no effect, but a descriptor that fails to close is
closed nonetheless, as on Linux. A write takes at least one byte, or fails.

What the operating system makes of a name is a parameter: whether it accepts
it, and, for a link, whether it leads to something and whether it leads out of
the directory. Beside the entries the machine keeps what they would be without
the call (`without`).
-/

namespace ReticulumPi.FileTransfer

abbrev Name := List Char

abbrev Bytes := List UInt8

/-- What a name stands for. -/
inductive Node
  | file (data : Bytes)
  /-- A link, which may lead to something, and may lead to it within the directory. -/
  | link (leads inside : Bool)
  | directory
  deriving DecidableEq

/-- The entries of a directory. -/
abbrev Directory := Name → Option Node

/-- Another program creates an entry, unless there is one with its name. -/
def Directory.create (d : Directory) (e : Name × Node) : Directory :=
  Function.update d e.1 (some ((d e.1).getD e.2))

structure Machine where
  directory : Directory
  /-- The entries that there would be without the call. -/
  without : Directory
  /-- How many steps were taken. -/
  steps : ℕ := 0
  /-- `temporary_fd` is not `None`. -/
  temporaryFd : Bool := false
  /-- The descriptor of the temporary file is open. -/
  isOpen : Bool := false

inductive Raised
  | fileExists
  | fileNotFound
  /-- Another `OSError`. -/
  | osError
  | valueError
  deriving DecidableEq

/-- The steps that may fail. -/
inductive Step
  | openDirectory | openTemporary
  | write (number : ℕ)
  | fsyncFile | closeFile
  | link (counter : ℕ)
  | fsyncPublished | unlink | fsyncUnlinked
  /-- The steps of the error path, and of the `finally`. -/
  | closeAgain | unlinkAgain | fsyncCleaned | closeDirectory
  deriving DecidableEq

/-- A call, with what the rest of the system is like. -/
structure Call where
  /-- The entries of the shared directory. -/
  directory : Directory
  /-- `resource.data.name`, if there is one. -/
  offered : Option Name
  data : Bytes
  /-- `f"received_{int(time.time())}_{resource.size}b"`, at the places where it is read. -/
  received : ℕ → Name
  /-- `f".reticulumpi-upload-{secrets.token_hex(16)}.tmp"` -/
  temporaryName : Name
  /-- What others create before a step. -/
  others : ℕ → List (Name × Node) := fun _ => []
  /-- The file system takes an entry of that name. -/
  accepts : Name → Bool := fun _ => true
  /-- How many bytes more than one a write takes. -/
  taken : ℕ → ℕ := fun _ => 0
  failure : Option Step := none

abbrev M := Prog Machine Raised

/-! ## Names -/

/-- `os.path.basename` -/
def basename (path : Name) : Name := path.rtakeWhile (· ≠ '/')

/-- `os.path.splitext`, of a name without slashes. -/
def splitext (name : Name) : Name × Name :=
  let base := (name.rdropWhile (· ≠ '.')).dropLast
  if base.any (· ≠ '.') then (base, name.drop base.length) else (name, [])

/-- `f"{base}_{counter}{extension}"` -/
def numbered (base extension : Name) (counter : ℕ) : Name :=
  base ++ '_' :: (toString counter).toList ++ extension

namespace Call

variable (call : Call)

/-! ## Steps -/

/-- Others create their entries. -/
def meet (s : Machine) : Machine :=
  { s with
    directory := (call.others s.steps).foldl Directory.create s.directory
    without := (call.others s.steps).foldl Directory.create s.without
    steps := s.steps + 1 }

/-- A step, which fails if it is the one that does. -/
def step (place : Step) (act : Machine → Except Raised Machine) : M Unit := fun s =>
  if call.failure = some place then (.raised .osError, call.meet s)
  else
    match act (call.meet s) with
    | .ok s' => (.ok (), s')
    | .error e => (.raised e, call.meet s)

/-- A step that changes nothing. -/
def idle (place : Step) : M Unit := call.step place .ok

/-- What is seen of the directory. -/
def look {α : Type} (see : Directory → α) : M α := fun s =>
  (.ok (see (call.meet s).directory), call.meet s)

/-- `os.path.exists(os.path.join(self._shared_dir, name))` -/
def pathExists (name : Name) : M Bool :=
  call.look fun d =>
    name ∈ [['.'], ['.', '.']] ||
      match d name with
      | none => false
      | some (.link leads _) => leads
      | some _ => true

/-- `_is_within_shared_dir`, which raises on a null character. -/
def isWithinSharedDir (name : Name) : M Bool :=
  if Char.ofNat 0 ∈ name then throw .valueError
  else
    call.look fun d =>
      match d name with
      | some (.link _ inside) => inside
      | _ => true

/-- `os.close(temporary_fd)` -/
def close (place : Step) : M Unit := fun s =>
  let closed := { call.meet s with isOpen := false }
  if call.failure = some place ∨ s.isOpen = false then (.raised .osError, closed)
  else (.ok (), closed)

/-! ## The name -/

/-- The loop of `_safe_filename`, from a counter on. -/
def freeName (base extension : Name) : ℕ → ℕ → M Name
  | 0, _ => pure (call.received 1 ++ extension)
  | fuel + 1, counter => do
    if ← call.pathExists (numbered base extension counter) then
      freeName base extension fuel (counter + 1)
    else return numbered base extension counter

/-- `_safe_filename` -/
def safeFilename : M Name := do
  let name := (call.offered.map basename).getD []
  let name := basename (if name = [] then call.received 0 else name)
  let name ← (do
    if ← call.pathExists name then
      call.freeName (splitext name).1 (splitext name).2 9999 1
    else return name)
  if ← call.isWithinSharedDir name then return name else return call.received 2

/-! ## The file -/

/-- `os.open` of the temporary file. -/
def openTemporary : M Unit :=
  call.step .openTemporary fun s =>
    if s.directory call.temporaryName = none then
      .ok { s with
        directory := Function.update s.directory call.temporaryName (some (.file []))
        temporaryFd := true
        isOpen := true }
    else .error .fileExists

/-- `os.write` of some bytes to the temporary file. -/
def append (number : ℕ) (bytes : Bytes) : M Unit :=
  call.step (.write number) fun s =>
    match s.directory call.temporaryName with
    | some (.file data) =>
      .ok { s with
        directory := Function.update s.directory call.temporaryName (some (.file (data ++ bytes))) }
    | _ => .ok s

/-- The loop over the data; `fuel` bounds its length. -/
def writeAll : ℕ → ℕ → Bytes → M Unit
  | 0, _, _ => pure ()
  | fuel + 1, number, view =>
    if view = [] then pure ()
    else do
      call.append number (view.take (call.taken number + 1))
      writeAll fuel (number + 1) (view.drop (call.taken number + 1))

/-- `os.link` of the temporary file. -/
def link (counter : ℕ) (candidate : Name) : M Unit :=
  call.step (.link counter) fun s =>
    if call.accepts candidate = false then .error .osError
    else if s.directory candidate ≠ none then .error .fileExists
    else
      match s.directory call.temporaryName with
      | none => .error .fileNotFound
      | some node => .ok { s with directory := Function.update s.directory candidate (some node) }

/-- The loop over the candidates, so many of them from a counter on. -/
def publish (preferred : Name) : ℕ → ℕ → M Name
  | 0, _ => throw .osError
  | fuel + 1, counter =>
    let candidate :=
      if counter = 0 then preferred
      else numbered (splitext preferred).1 (splitext preferred).2 counter
    tryCatch (do
      call.link counter candidate
      return candidate) fun e =>
        if e = .fileExists then publish preferred fuel (counter + 1) else throw e

/-- `os.unlink` of the temporary name. -/
def unlink (place : Step) : M Unit :=
  call.step place fun s =>
    match s.directory call.temporaryName with
    | none => .error .fileNotFound
    | some _ => .ok { s with directory := Function.update s.directory call.temporaryName none }

/-- The body of the `try`. -/
def body (preferred : Name) : M Name := do
  call.openTemporary
  call.writeAll call.data.length 0 call.data
  call.idle .fsyncFile
  call.close .closeFile
  modify fun s => { s with temporaryFd := false }
  let publishedName ← call.publish preferred 10000 0
  call.idle .fsyncPublished
  call.unlink .unlink
  call.idle .fsyncUnlinked
  return publishedName

/-- The error path, before the error is raised again. -/
def cleanUp : M Unit := do
  if (← get).temporaryFd then call.close .closeAgain
  tryCatch (do
    call.unlink .unlinkAgain
    call.idle .fsyncCleaned) fun e =>
      if e = .fileNotFound then pure () else throw e

/-- `_store_received_file`: the name of the file. -/
def storeReceivedFile : M Name := do
  let preferred ← call.safeFilename
  call.idle .openDirectory
  Prog.tryFinally
    (tryCatch (call.body preferred) fun e => do
      call.cleanUp
      throw e)
    (call.idle .closeDirectory)

/-- The call, from its start. -/
def run : Res Raised Name × Machine :=
  call.storeReceivedFile { directory := call.directory, without := call.directory }

end Call

end ReticulumPi.FileTransfer
