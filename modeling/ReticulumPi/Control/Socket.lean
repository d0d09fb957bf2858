import ReticulumPi.Lib.Codec
import ReticulumPi.Lib.PyStr

/-!
# The control socket

A service asks the privileged broker for one of its operations through a Unix
socket: `requestControl` writes the request as one line of JSON and reads one
line as the response, `serveConnection` reads the request, carries it out and
writes the response. Neither side reads a line of more than
`maxControlMessage` bytes.
-/

namespace ReticulumPi.Control

open PyJson PyCodec

/-- `MAX_CONTROL_MESSAGE` -/
def maxControlMessage : ℕ := 4096

def newline : Byte := byte 0x0a

/-! ## Reading a line -/

/-- What the other side writes, and whether it closes the connection after it. -/
structure Incoming where
  bytes : List Byte
  closed : Bool

/-- The loop around `recv` of both sides: the call number `calls` gives `sizes calls` bytes at
    most. Nothing is returned if a call waits until it times out. -/
def receiveFrom (sizes : ℕ → ℕ) (closed : Bool) (calls : ℕ) (chunks stream : List Byte) :
    Option (List Byte) :=
  if maxControlMessage < chunks.length then some chunks
  else
    match stream with
    | [] => if closed then some chunks else none
    | b :: stream =>
      let n := min (sizes calls) (min 1024 (maxControlMessage + 1 - chunks.length)) - 1
      let block := b :: stream.take n
      if newline ∈ block then some (chunks ++ block)
      else receiveFrom sizes closed (calls + 1) (chunks ++ block) (stream.drop n)
termination_by stream.length
decreasing_by simp only [List.length_drop, List.length_cons]; omega

def receive (sizes : ℕ → ℕ) (incoming : Incoming) : Option (List Byte) :=
  receiveFrom sizes incoming.closed 0 [] incoming.bytes

/-- `.split(b"\n", 1)[0]` -/
def firstLine (b : List Byte) : List Byte := b.takeWhile (· ≠ newline)

/-! ## The client -/

/-- The object of a request. -/
def requestValue (operation : Text) (arguments : List Text) : Value :=
  .object [(text "operation", .string operation),
    (text "arguments", .array (arguments.map .string))]

/-- A document in UTF-8, and the end of its line. -/
def line (v : Value) : Option (List Byte) := (encode (v.dumps compact)).map (· ++ [newline])

/-- What `request_control` raises: a `ControlError`, or the error of the codec. -/
inductive Raised
  | control (message : Text)
  | unicode

/-- How Python takes the values that neither side writes. -/
structure Builtins where
  isZero : Number → Bool
  str : Value → Text

variable (py : Builtins)

/-- `str(value)`, which is `value` for a text. -/
def Builtins.message : Value → Text
  | .string s => s
  | v => py.str v

/-- What `request_control` makes of the bytes it received. -/
def readResponse (chunks : List Byte) : Except Raised Value :=
  if maxControlMessage < chunks.length then
    .error (.control (text "control broker response exceeds 4096 bytes"))
  else
    match loadsBytes (firstLine chunks) with
    | none => .error (.control (text "control broker returned an invalid response"))
    | some (.object l) =>
      if ((get? l (text "ok")).map (·.truthy py.isZero)).getD false then .ok (.object l)
      else .error (.control (((get? l (text "error")).map py.message).getD
        (text "control operation failed")))
    | some _ => .error (.control (text "control operation failed"))

/-- The bytes that `request_control` agrees to send. -/
def payload (operation : Text) (arguments : List Text) : Except Raised (List Byte) :=
  match line (requestValue operation arguments) with
  | none => .error .unicode
  | some payload =>
    if maxControlMessage < payload.length then
      .error (.control (text "control request exceeds 4096 bytes"))
    else .ok payload

/-- What `request_control` makes of what the other side writes. -/
def awaitResponse (sizes : ℕ → ℕ) (incoming : Incoming) : Except Raised Value :=
  match receive sizes incoming with
  | none => .error (.control (text "control broker unavailable: timed out"))
  | some chunks => readResponse py chunks

/-- `request_control`, where `exchange` connects, sends the bytes and gives what the other side
    writes, or raises an `OSError`. -/
def requestControl (operation : Text) (arguments : List Text)
    (exchange : List Byte → Except Text Incoming) (sizes : ℕ → ℕ) : Except Raised Value := do
  let payload ← payload operation arguments
  match exchange payload with
  | .error e => .error (.control (text "control broker unavailable: " ++ e))
  | .ok incoming => awaitResponse py sizes incoming

/-! ## The broker -/

/-- A request that was read. -/
structure Request where
  operation : Text
  arguments : List Text
  deriving DecidableEq

/-- The items of a list, if every one is a text of at most 256 characters. -/
def shortStrings : List Value → Option (List Text)
  | [] => some []
  | .string s :: l => if s.length ≤ 256 then (shortStrings l).map (s :: ·) else none
  | _ :: _ => none

/-- `set(value) == {"operation", "arguments"}` -/
def hasRequestKeys (l : List (Text × Value)) : Bool :=
  l.all (fun m => m.1 = text "operation" || m.1 = text "arguments") &&
    l.any (·.1 = text "operation") && l.any (·.1 = text "arguments")

/-- What `_read_request` makes of the bytes it received. -/
def decodeRequest (buffer : List Byte) : Except Text Request :=
  if maxControlMessage < buffer.length then .error (text "request exceeds 4096 bytes")
  else
    match loadsBytes (firstLine buffer) with
    | none => .error (text "invalid JSON request")
    | some (.object l) =>
      if hasRequestKeys l then
        match get? l (text "operation"), get? l (text "arguments") with
        | some (.string operation), some (.array items) =>
          match shortStrings items with
          | none => .error (text "arguments must be short strings")
          | some arguments => .ok ⟨operation, arguments⟩
        | _, _ => .error (text "invalid request types")
      else .error (text "request must contain only operation and arguments")
    | some _ => .error (text "request must contain only operation and arguments")

/-- `_read_request` -/
def readRequest (sizes : ℕ → ℕ) (incoming : Incoming) : Except Text Request :=
  match receive sizes incoming with
  | none => .error (text "request read timed out")
  | some buffer => decodeRequest buffer

/-- What a command came to. -/
structure Completed where
  returncode : ℤ
  stdout : Text
  stderr : Text

structure Operation where
  validator : List Text → Except Text (List Text)
  command : List Text → List Text

/-- What the broker finds around it: the table `OPERATIONS`, how `subprocess.run` ends, and the
    users on both sides. Where something raises, the text is that of the error. -/
structure Host where
  operations : List (Text × Operation)
  run : List Text → Except Text Completed
  peerUid : Except Text ℕ
  serviceUid : Except Text ℕ

inductive Response
  | done (operation output : Text)
  | failed (error : Text)
  deriving DecidableEq

def Response.value : Response → Value
  | done operation output => .object [(text "ok", .bool true),
      (text "operation", .string operation), (text "output", .string output)]
  | failed error => .object [(text "ok", .bool false), (text "error", .string error)]

/-- `str.strip()` -/
def strip (s : Text) : Text :=
  let isSpace := fun c : CodePoint => PyStr.isSpace (Char.ofNat c.val)
  (s.dropWhile isSpace).rdropWhile isSpace

/-- `handle_request` -/
def handleRequest (host : Host) (value : Request) : Except Text Response :=
  match host.operations.lookup value.operation with
  | none => .error (text "unsupported operation: " ++ value.operation)
  | some operation => do
    let arguments ← operation.validator value.arguments
    let result ← host.run (operation.command arguments)
    if result.returncode ≠ 0 then
      let error := strip result.stderr
      .error ((if error.isEmpty then text (s!"operation exited {result.returncode}") else
        error).take 512)
    else .ok (.done value.operation ((strip result.stdout).take 2048))

/-- The response of `serve_connection`, and its status. -/
def respond (host : Host) (sizes : ℕ → ℕ) (incoming : Incoming) : Response × ℕ :=
  let response : Except Text Response := do
    let uid ← host.peerUid
    let serviceUid ← host.serviceUid
    if uid ≠ serviceUid then
      .error (text "peer is not the ReticulumPi service user")
    else
      handleRequest host (← readRequest sizes incoming)
  match response with
  | .ok response => (response, 0)
  | .error e => (.failed (e.take 512), 1)

/-- `serve_connection`: what it writes, and its status. -/
def serveConnection (host : Host) (sizes : ℕ → ℕ) (incoming : Incoming) :
    Option (List Byte × ℕ) :=
  let (response, status) := respond host sizes incoming
  (line response.value).map fun b => (b, status)

end ReticulumPi.Control
