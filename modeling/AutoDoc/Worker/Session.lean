import AutoDoc.Text.White
import AutoDoc.Tree.Error
import AutoDoc.Worker.Message

/-!
# Sessions with a worker

A session holds at most one worker process and starts a new one when a request finds none. Request
identifiers only grow, also across processes, and a reply counts only if it carries the identifier
of the request that waits for it.

A program is what the processes started from it do: the lines each start and each request bring
forth. A process that prints nothing further has ended, so waiting for a line beyond the last one
finds the end of its output.
-/

namespace AutoDoc.Worker

/-- What one read from a process gives: a line, or an error. -/
abbrev Output := Except OsError String

/-- The behaviour of a worker program with process states `π`. -/
structure Program (π : Type) where
  /-- The `n`-th start: refused, or the first output and the state of the process. -/
  start : Nat → Except OsError (List Output × π)
  /-- A request line: refused, or the output it brings and the state then. -/
  request : π → String → Except OsError (List Output × π)

inductive Error where
  | spawnFailed (reason : String)
  | crashed (reason : String)
  | failed (code message : String)
  | invalidResponse (reason : String)
  | notStarted
  | interpreterNotFound (path : String)
deriving DecidableEq, Repr

def Error.message : Error → String
  | .spawnFailed reason => "failed to spawn worker: " ++ reason
  | .crashed reason => "worker process crashed: " ++ reason
  | .failed code message => "worker error: " ++ code ++ " - " ++ message
  | .invalidResponse reason => "invalid worker response: " ++ reason
  | .notStarted => "worker not started"
  | .interpreterNotFound path => "Python interpreter not found: " ++ path

/-- A session with a worker. The process and its two ends are held apart. -/
structure Session (π : Type) where
  nextId : Nat := 1
  /-- How many processes were started. -/
  starts : Nat := 0
  /-- The process, by the number of its start. -/
  child : Option Nat := none
  /-- The end that takes requests, with the state of the process behind it. -/
  stdin : Option π := none
  /-- The end that gives output: what was not read yet. -/
  stdout : Option (List Output) := none
  version : Option String := none

/-- What a line says while a process is awaited. -/
inductive Announcement where
  | ready (version : String)
  | refused (reason : String)
  | noise
deriving DecidableEq, Repr

/-- Read an announcement: a ready message, else a reply with an error status, else noise. -/
def Announcement.ofLine (line : String) : Announcement :=
  match (Ready.ofLine? line).filter (·.status == "ready") with
  | some announced => .ready announced.version
  | none =>
    match (Response.ofLine? line).filter (·.status == "error") with
    | some response => .refused (response.message.getD "unknown error")
    | none => .noise

/-- Read until the ready message: its version and the output behind it. Noise is passed over; a
reply with an error status ends the wait. -/
def awaitReady : List Output → Except Error (String × List Output)
  | [] => .error (.spawnFailed "worker exited before sending ready message")
  | .error e :: _ => .error (.spawnFailed ("error reading from worker: " ++ e.message))
  | .ok line :: rest =>
    match Announcement.ofLine (Text.trim line) with
    | .ready version => .ok (version, rest)
    | .refused reason => .error (.spawnFailed reason)
    | .noise => awaitReady rest

/-- Read until the reply to a request: the result, and the output behind it unless the process is
lost. Blank lines and replies to other requests are passed over; a line that is no reply ends the
wait, but not the process. -/
def awaitReply (id : Nat) : List Output → Except Error Response × Option (List Output)
  | [] => (.error (.crashed "unexpected EOF"), none)
  | .error e :: _ => (.error (.crashed e.message), none)
  | .ok line :: rest =>
    let line := Text.trim line
    if line.isEmpty then awaitReply id rest
    else
      match Response.ofLine? line with
      | none => (.error (.invalidResponse "JSON parse error"), some rest)
      | some response =>
        if response.id != some id then awaitReply id rest
        else if response.status == "error" then
          (.error (.failed (response.errorCode.getD "") (response.message.getD "")), some rest)
        else (.ok response, some rest)

namespace Session

variable {π : Type}

def isRunning (s : Session π) : Bool := s.child.isSome && s.stdin.isSome && s.stdout.isSome

/-- Give up what is held of a process; the process is ended. -/
def release (s : Session π) : Session π :=
  { s with child := none, stdin := none, stdout := none }

/-- Wait until the process that was started is ready. -/
def becomeReady (s : Session π) : Except Error Unit × Session π :=
  match s.stdout with
  | none => (.error .notStarted, s)
  | some output =>
    match awaitReady output with
    | .error e => (.error e, s)
    | .ok (version, unread) =>
      (.ok (), { s with stdout := some unread, version := some version })

/-- Start a process. One that does not become ready is given up. -/
def start (program : Program π) (s : Session π) : Except Error Unit × Session π :=
  match program.start s.starts with
  | .error e => (.error (.spawnFailed e.message), s)
  | .ok (output, state) =>
    let started := { s with
      starts := s.starts + 1
      child := some s.starts
      stdin := some state
      stdout := some output }
    match started.becomeReady with
    | (.error e, s) => (.error e, s.release)
    | (.ok (), s) => (.ok (), s)

def ensureRunning (program : Program π) (s : Session π) : Except Error Unit × Session π :=
  if s.isRunning then (.ok (), s) else s.release.start program

/-- Wait for the reply to a request; a process that is lost is given up. -/
def receive (s : Session π) (id : Nat) : Except Error Response × Session π :=
  match s.stdout with
  | none => (.error .notStarted, s)
  | some output =>
    match awaitReply id output with
    | (result, none) => (result, s.release)
    | (result, some unread) => (result, { s with stdout := some unread })

/-- Write a request and wait for its reply. The identifier is used up in any case. -/
def exchange (program : Program π) (s : Session π) (op : String)
    (params : List (String × Json)) : Except Error Response × Session π :=
  let id := s.nextId
  let s := { s with nextId := id + 1 }
  match s.stdin with
  | none => (.error .notStarted, s)
  | some state =>
    match program.request state (requestLine id op params) with
    | .error e => (.error (.crashed e.message), s.release)
    | .ok (output, state) =>
      receive { s with stdin := some state, stdout := s.stdout.map (· ++ output) } id

/-- Send a request, after starting a process if none is held. -/
def send (program : Program π) (s : Session π) (op : String) (params : List (String × Json)) :
    Except Error Response × Session π :=
  match s.ensureRunning program with
  | (.error e, s) => (.error e, s)
  | (.ok (), s) => s.exchange program op params

/-- Ask the process that is held to end, and give it up whatever it replies. -/
def shutdown (program : Program π) (s : Session π) : Except Error Unit × Session π :=
  if s.isRunning then
    let (_, s) := s.send program "shutdown" []
    (.ok (), s.release)
  else (.ok (), s)

end Session

end AutoDoc.Worker
