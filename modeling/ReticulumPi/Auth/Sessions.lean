import Mathlib.Data.Int.Order.Basic
import ReticulumPi.Lib.Dict
import ReticulumPi.Lib.Transition

/-!
# Dashboard sessions

`AuthManager` of the dashboard with a `SqliteSessionStore`, whose operations are atomic, as
a system of requests that run at the same time: each is a thread that takes one step at a
time, an operation of the store, a look at the clock or at the checksum, or, for the
password, a block under `_credential_lock`. The process may end at any time, and another
open the same database.

The verification and the hashes of passwords are parameters, as is whether the rate limiter
lets a login pass; what its audit logs is left out, as are the bootstrap password and the
in-memory sessions of a dashboard without a database.
-/

namespace ReticulumPi.Auth

structure Session where
  createdAt : ℤ
  lastSeen : ℤ
  remoteIp : String
  /-- Sessions of older versions have none. -/
  passwordHashChecksum : Option String
  expiresAt : Option ℤ
  deriving DecidableEq

/-- A row of the table of sessions, with the indexed column. -/
structure Row where
  data : Session
  expiresAt : Option ℤ
  deriving DecidableEq

structure AuthManager where
  /-- `verify_password`. -/
  verifyPassword : String → String → Bool
  /-- `hashlib.sha256(...).hexdigest()`. -/
  sha256 : String → String
  normalizeIp : String → String
  sessionTimeout : ℤ
  lastSeenThrottle : ℤ
  maxSessions : ℕ
  /-- There is a file for the hash of the password. -/
  passwordHashFile : Bool
  passwordHash : String
  passwordHashChecksum : String
  sessions : Dict String Row
  /-- The thread that holds `_credential_lock`. -/
  credentialLock : Option ℕ := none

inductive Request
  | validateToken (token : String)
  | login (password remoteIp : String)
  | logout (token : String)
  | changePassword (current new : String)
  | cleanupExpired
  deriving DecidableEq

/-- Who invalidates all sessions: `validate_token` or `change_password`. -/
inductive Caller
  | validation | change
  deriving DecidableEq

/-- Where a thread is. That a validation is `late` says that its token had been revoked when
    it began. -/
inductive Pc
  | idle
  /-- `validate_token`: before the session is read, before its checksum is compared, before
      its age is looked at, before it is deleted and before it is written back. -/
  | reading (token : String) (late : Bool)
  | comparing (token : String) (late : Bool) (session : Session)
  | aging (token : String) (late : Bool) (session : Session)
  | expiring (token : String)
  | sliding (token : String) (late : Bool) (session : Session)
  /-- `_invalidate_all_sessions`: before the tokens are listed, and before the next one is
      deleted. -/
  | listing (caller : Caller)
  | deleting (remaining : List String) (caller : Caller)
  | loggingIn (password remoteIp : String)
  /-- The eviction of `login`: before the sessions are counted, before those of the same
      address are listed, before all are listed, before the next one is read, before the victim is
      deleted. -/
  | counting (token remoteIp : String)
  | choosing (token remoteIp : String)
  | choosingAny (token remoteIp : String)
  | oldest (token remoteIp : String) (remaining : List String) (best : Option (String × ℤ))
  | evicting (token remoteIp victim : String)
  | loggingOut (token : String)
  | changing (current new : String)
  /-- `change_password`: before the checksum is set. -/
  | rehashed
  | sweeping
  deriving DecidableEq

structure System where
  auth : AuthManager
  pcs : ℕ → Pc
  /-- The tokens there have been. -/
  issued : List String
  /-- The tokens that have been logged out, or been issued before a password change. -/
  revoked : List String := []
  /-- The tokens that `validate_token` has accepted, and whether it was late. -/
  accepted : List (String × Bool) := []

inductive Event
  | begin (n : ℕ) (request : Request)
  /-- A step that depends on nothing else. -/
  | go (n : ℕ)
  /-- A step that looks at the clock. -/
  | look (n : ℕ) (now : ℤ)
  /-- `login` up to the new session, with the new token. -/
  | enter (n : ℕ) (allowed : Bool) (token : String) (now : ℤ)
  /-- `change_password` up to the new hash; without one, it could not be persisted. -/
  | rehash (n : ℕ) (replacement : Option String)
  /-- The process ends, and another reads the hash of the password and opens the database. -/
  | restart (passwordHash : String)

/-- `min(..., key=...)`, the first one. -/
def youngest (best : Option (String × ℤ)) (token : String) (lastSeen : ℤ) : Option (String × ℤ) :=
  match best with
  | some (t, seen) => if lastSeen < seen then some (token, lastSeen) else some (t, seen)
  | none => some (token, lastSeen)

namespace AuthManager

variable (auth : AuthManager)

/-- The session that a login evicts from those of the same address, if it has another. -/
def sameIpVictim (token remoteIp : String) : Option String :=
  (auth.sessions.entries.filter fun e => e.1 ≠ token ∧
      auth.normalizeIp e.2.data.remoteIp = auth.normalizeIp remoteIp).foldl
    (fun best e => youngest best e.1 e.2.data.lastSeen) none |>.map Prod.fst

def put (token : String) (session : Session) : AuthManager :=
  { auth with sessions := auth.sessions.set token ⟨session, session.expiresAt⟩ }

def delete (token : String) : AuthManager := { auth with sessions := auth.sessions.erase token }

end AuthManager

namespace System

variable (s : System)

/-- A thread goes on. -/
def goTo (n : ℕ) (pc : Pc) : System := { s with pcs := Function.update s.pcs n pc }

/-- A thread is done, and has released the lock. -/
def unlock (n : ℕ) : System :=
  { s with auth := { s.auth with credentialLock := none } }.goTo n .idle

/-- `validate_token` returns true. -/
def accept (n : ℕ) (token : String) (late : Bool) : System :=
  { s with accepted := (token, late) :: s.accepted }.goTo n .idle

def start (request : Request) : Pc :=
  match request with
  | .validateToken token => .reading token (token ∈ s.revoked)
  | .login password remoteIp => .loggingIn password remoteIp
  | .logout token => .loggingOut token
  | .changePassword current new =>
    if new.length < 12 ∨ 256 < new.length ∨ !s.auth.passwordHashFile then .idle
    else .changing current new
  | .cleanupExpired => .sweeping

/-- The steps that depend on the state alone. -/
def go (n : ℕ) : Option System :=
  match s.pcs n with
  | .reading token late => match s.auth.sessions.get? token with
    | none => some (s.goTo n .idle)
    | some row => some (s.goTo n (.comparing token late row.data))
  | .comparing token late session =>
    if session.passwordHashChecksum.any (· ≠ s.auth.passwordHashChecksum) then
      some (s.goTo n (.listing .validation))
    else some (s.goTo n (.aging token late session))
  | .expiring token => some ({ s with auth := s.auth.delete token }.goTo n .idle)
  | .sliding token late session =>
    some ({ s with auth := s.auth.put token session }.accept n token late)
  | .listing caller => some (s.goTo n (.deleting s.auth.sessions.keys caller))
  | .deleting (token :: remaining) caller =>
    some ({ s with auth := s.auth.delete token }.goTo n (.deleting remaining caller))
  | .deleting [] .validation => some (s.goTo n .idle)
  | .deleting [] .change => some ({ s with revoked := s.issued ++ s.revoked }.unlock n)
  | .counting token remoteIp =>
    if s.auth.sessions.entries.length ≤ s.auth.maxSessions then some (s.unlock n)
    else some (s.goTo n (.choosing token remoteIp))
  | .choosing token remoteIp => match s.auth.sameIpVictim token remoteIp with
    | some victim => some (s.goTo n (.evicting token remoteIp victim))
    | none => some (s.goTo n (.choosingAny token remoteIp))
  | .choosingAny token remoteIp =>
    some (s.goTo n (.oldest token remoteIp (s.auth.sessions.keys.filter (· ≠ token)) none))
  | .oldest token remoteIp (t :: remaining) best => match s.auth.sessions.get? t with
    | none => some (s.unlock n)
    | some row =>
      some (s.goTo n (.oldest token remoteIp remaining (youngest best t row.data.lastSeen)))
  | .oldest token remoteIp [] best => match best with
    | none => some (s.unlock n)
    | some (victim, _) => some (s.goTo n (.evicting token remoteIp victim))
  | .evicting token remoteIp victim => match s.auth.sessions.get? victim with
    | none => some (s.unlock n)
    | some _ => some ({ s with auth := s.auth.delete victim }.goTo n (.counting token remoteIp))
  | .loggingOut token => some ({ s with
      auth := s.auth.delete token, revoked := token :: s.revoked }.goTo n .idle)
  | .rehashed => some ({ s with auth := { s.auth with
      passwordHashChecksum := s.auth.sha256 s.auth.passwordHash } }.goTo n (.listing .change))
  | _ => none

/-- The steps. -/
def next : Event → Option System
  | .begin n request => if s.pcs n = .idle then some (s.goTo n (s.start request)) else none
  | .go n => s.go n
  | .look n now => match s.pcs n with
    | .aging token late session =>
      if s.auth.sessionTimeout < now - session.lastSeen then some (s.goTo n (.expiring token))
      else if s.auth.lastSeenThrottle ≤ now - session.lastSeen then
        some (s.goTo n (.sliding token late { session with
          lastSeen := now, expiresAt := some (now + s.auth.sessionTimeout) }))
      else some (s.accept n token late)
    | .sweeping => some ({ s with auth := { s.auth with
        sessions := s.auth.sessions.filter fun row => !row.expiresAt.any (· ≤ now) } }.goTo n .idle)
    | _ => none
  | .enter n allowed token now => match s.pcs n with
    | .loggingIn password remoteIp =>
      if s.auth.credentialLock ≠ none ∨ token ∈ s.issued ∨ token ∈ s.revoked then none
      else if allowed = false ∨ s.auth.verifyPassword password s.auth.passwordHash = false then
        some (s.goTo n .idle)
      else some ({ s with
        auth := { s.auth.put token {
            createdAt := now, lastSeen := now, remoteIp := remoteIp
            passwordHashChecksum := some s.auth.passwordHashChecksum
            expiresAt := some (now + s.auth.sessionTimeout) } with credentialLock := some n }
        issued := token :: s.issued }.goTo n (.counting token remoteIp))
    | _ => none
  | .rehash n replacement => match s.pcs n with
    | .changing current new =>
      if s.auth.credentialLock ≠ none then none
      else if s.auth.verifyPassword current s.auth.passwordHash = false ∨
          s.auth.verifyPassword new s.auth.passwordHash = true then some (s.goTo n .idle)
      else match replacement with
        | none => some (s.goTo n .idle)
        | some replacement => some ({ s with auth := { s.auth with
            passwordHash := replacement, credentialLock := some n } }.goTo n .rehashed)
    | _ => none
  | .restart passwordHash => some { s with
      pcs := fun _ => .idle
      auth := { s.auth with
        passwordHash := passwordHash
        passwordHashChecksum := s.auth.sha256 passwordHash
        credentialLock := none } }

/-- A dashboard that has just opened its database. -/
def opened (auth : AuthManager) : System where
  auth := auth
  pcs _ := .idle
  issued := auth.sessions.keys

end System

def system : Transition System Event :=
  .ofNext (fun s => ∃ auth : AuthManager, auth.credentialLock = none ∧
    auth.passwordHashChecksum = auth.sha256 auth.passwordHash ∧ s = .opened auth) System.next

end ReticulumPi.Auth
