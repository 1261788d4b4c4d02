import AutoDoc.Worker.Session

/-!
# Calls on a session

What one call does to a session is said once: how a process is started (`start_outcome`), how a wait
for a reply ends (`awaitReply_ends`) and what a request leaves (`exchange_outcome`). A session that
is whole holds a process with both its ends or nothing at all, and no call breaks it in two.

A history is a list of calls, each with the program that processes follow while it lasts. So a
process may print, end or refuse to start at any point, whatever it did before.
-/

namespace AutoDoc.Worker

/-! ### Waiting -/

/-- Output that the wait for a reply passes over: blank lines and replies to other requests. -/
def PassedOver (id : Nat) (output : Output) : Prop :=
  ∃ line, output = .ok line ∧ ((Text.trim line).isEmpty = true ∨
    ∃ response, Response.ofLine? (Text.trim line) = some response ∧ response.id ≠ some id)

/-- What ends the wait for a reply, and the output behind it unless the process is lost. -/
inductive Ends (id : Nat) : List Output → Except Error Response × Option (List Output) → Prop
  | closed : Ends id [] (.error (.crashed "unexpected EOF"), none)
  | unreadable (e : OsError) (rest : List Output) :
      Ends id (.error e :: rest) (.error (.crashed e.message), none)
  | malformed {line : String} {rest : List Output} (written : (Text.trim line).isEmpty = false)
      (undecoded : Response.ofLine? (Text.trim line) = none) :
      Ends id (.ok line :: rest) (.error (.invalidResponse "JSON parse error"), some rest)
  | refused {line : String} {rest : List Output} {response : Response}
      (decoded : Response.ofLine? (Text.trim line) = some response)
      (carried : response.id = some id) (status : response.status = "error") :
      Ends id (.ok line :: rest)
        (.error (.failed (response.errorCode.getD "") (response.message.getD "")), some rest)
  | answered {line : String} {rest : List Output} {response : Response}
      (decoded : Response.ofLine? (Text.trim line) = some response)
      (carried : response.id = some id) (status : response.status ≠ "error") :
      Ends id (.ok line :: rest) (.ok response, some rest)

/-- A wait passes over some output and ends at what comes next. -/
theorem awaitReply_ends (id : Nat) (output : List Output) :
    ∃ skipped rest, output = skipped ++ rest ∧ (∀ o ∈ skipped, PassedOver id o) ∧
      Ends id rest (awaitReply id output) := by
  induction output with
  | nil => exact ⟨[], [], rfl, by simp, .closed⟩
  | cons first rest ih =>
    -- Passing over a line leaves the wait to the output behind it.
    have onward : PassedOver id first → awaitReply id (first :: rest) = awaitReply id rest →
        ∃ skipped behind, first :: rest = skipped ++ behind ∧ (∀ o ∈ skipped, PassedOver id o) ∧
          Ends id behind (awaitReply id (first :: rest)) := by
      intro passed same
      obtain ⟨skipped, behind, split, all, ends⟩ := ih
      refine ⟨first :: skipped, behind, by rw [split, List.cons_append], ?_, same ▸ ends⟩
      exact List.forall_mem_cons.mpr ⟨passed, all⟩
    cases first with
    | error e => exact ⟨[], _, rfl, by simp, .unreadable e rest⟩
    | ok line =>
      by_cases blank : (Text.trim line).isEmpty = true
      · exact onward ⟨line, rfl, Or.inl blank⟩ (by rw [awaitReply, if_pos blank])
      · have written : (Text.trim line).isEmpty = false := by simpa using blank
        cases decoded : Response.ofLine? (Text.trim line) with
        | none =>
          refine ⟨[], _, rfl, by simp, ?_⟩
          rw [awaitReply]
          simp only [written, decoded, Bool.false_eq_true, if_false]
          exact .malformed written decoded
        | some response =>
          by_cases carried : response.id = some id
          · refine ⟨[], _, rfl, by simp, ?_⟩
            rw [awaitReply]
            simp only [written, decoded, carried, Bool.false_eq_true, if_false, bne_self_eq_false,
              beq_iff_eq]
            split
            next status => exact .refused decoded carried status
            next status => exact .answered decoded carried status
          · refine onward ⟨line, rfl, Or.inr ⟨response, decoded, carried⟩⟩ ?_
            rw [awaitReply]
            simp [written, decoded, carried]

theorem Ends.answer {id : Nat} {output : List Output} {response : Response}
    {left : Option (List Output)} (ends : Ends id output (.ok response, left)) :
    ∃ line rest, output = .ok line :: rest ∧ left = some rest ∧
      Response.ofLine? (Text.trim line) = some response ∧ response.id = some id ∧
      response.status ≠ "error" := by
  cases ends with
  | answered decoded carried status => exact ⟨_, _, rfl, rfl, decoded, carried, status⟩

/-- A wait for the ready message that fails says that no process was started. -/
theorem awaitReady_error {output : List Output} {e : Error} (failed : awaitReady output = .error e) :
    ∃ reason, e = .spawnFailed reason := by
  induction output with
  | nil => exact ⟨_, (Except.error.inj failed).symm⟩
  | cons first rest ih =>
    cases first with
    | error os => exact ⟨_, (Except.error.inj failed).symm⟩
    | ok line =>
      unfold awaitReady at failed
      split at failed
      · cases failed
      · exact ⟨_, (Except.error.inj failed).symm⟩
      · exact ih failed

/-! ### Sessions -/

namespace Session

variable {π : Type} {program : Program π} {s : Session π}

/-- The process and its two ends are all there or all gone. -/
structure Whole (s : Session π) : Prop where
  stdin : s.stdin.isSome = s.child.isSome
  stdout : s.stdout.isSome = s.child.isSome

structure Idle (s : Session π) : Prop where
  child : s.child = none
  stdin : s.stdin = none
  stdout : s.stdout = none

/-- A process is held with both its ends. -/
structure Holds (s : Session π) (number : Nat) (state : π) (unread : List Output) : Prop where
  child : s.child = some number
  stdin : s.stdin = some state
  stdout : s.stdout = some unread

theorem Idle.whole (idle : s.Idle) : s.Whole :=
  ⟨by rw [idle.stdin, idle.child]; rfl, by rw [idle.stdout, idle.child]; rfl⟩

theorem Holds.whole {number : Nat} {state : π} {unread : List Output}
    (holds : s.Holds number state unread) : s.Whole :=
  ⟨by rw [holds.stdin, holds.child]; rfl, by rw [holds.stdout, holds.child]; rfl⟩

/-- A session in one piece holds nothing, or a process with both its ends. -/
theorem Whole.cases (whole : s.Whole) :
    s.Idle ∨ ∃ number state unread, s.Holds number state unread := by
  obtain ⟨stdin, stdout⟩ := whole
  cases held : s.child with
  | none =>
    rw [held] at stdin stdout
    exact Or.inl ⟨held, by simpa using stdin, by simpa using stdout⟩
  | some number =>
    rw [held] at stdin stdout
    obtain ⟨state, input⟩ := Option.isSome_iff_exists.mp stdin
    obtain ⟨unread, output⟩ := Option.isSome_iff_exists.mp stdout
    exact Or.inr ⟨number, state, unread, held, input, output⟩

@[simp] theorem Idle.isRunning (idle : s.Idle) : s.isRunning = false := by
  simp [Session.isRunning, idle.child]

@[simp] theorem Holds.isRunning {number : Nat} {state : π} {unread : List Output}
    (holds : s.Holds number state unread) : s.isRunning = true := by
  simp [Session.isRunning, holds.child, holds.stdin, holds.stdout]

theorem release_idle (s : Session π) : s.release.Idle := ⟨rfl, rfl, rfl⟩

theorem Idle.release (idle : s.Idle) : s.release = s := by
  rcases s with ⟨nextId, starts, child, stdin, stdout, version⟩
  obtain ⟨rfl, rfl, rfl⟩ := idle
  rfl

/-! ### Starting -/

/-- What a start leaves: it was refused, the process was given up, or it is held. -/
inductive Started (program : Program π) (s : Session π) : Except Error Unit × Session π → Prop
  | refused {e : OsError} (start : program.start s.starts = .error e) :
      Started program s (.error (.spawnFailed e.message), s)
  | unready {output : List Output} {state : π} {reason : String}
      (start : program.start s.starts = .ok (output, state))
      (awaited : awaitReady output = .error (.spawnFailed reason)) :
      Started program s
        (.error (.spawnFailed reason), { s with starts := s.starts + 1 }.release)
  | ready {output unread : List Output} {state : π} {version : String}
      (start : program.start s.starts = .ok (output, state))
      (awaited : awaitReady output = .ok (version, unread)) :
      Started program s (.ok (), { s with
        starts := s.starts + 1
        child := some s.starts
        stdin := some state
        stdout := some unread
        version := some version })

/-- Starting a program ends in one of the ways that `Started` lists. -/
theorem start_outcome (program : Program π) (s : Session π) :
    Started program s (s.start program) := by
  unfold Session.start
  cases start : program.start s.starts with
  | error e => exact .refused start
  | ok started =>
    rcases started with ⟨output, state⟩
    cases awaited : awaitReady output with
    | error e =>
      obtain ⟨reason, rfl⟩ := awaitReady_error awaited
      simp only [becomeReady, awaited]
      exact .unready start awaited
    | ok read =>
      simp only [becomeReady, awaited]
      exact .ready start awaited

/-- A process is held already, or one is started. -/
inductive Acquired (program : Program π) (s : Session π) : Except Error Unit × Session π → Prop
  | held {number : Nat} {state : π} {unread : List Output} (holds : s.Holds number state unread) :
      Acquired program s (.ok (), s)
  | started {outcome : Except Error Unit × Session π} (idle : s.Idle)
      (started : Started program s outcome) : Acquired program s outcome

theorem ensureRunning_outcome (whole : s.Whole) (program : Program π) :
    Acquired program s (s.ensureRunning program) := by
  unfold Session.ensureRunning
  rcases whole.cases with idle | ⟨number, state, unread, holds⟩
  · rw [idle.isRunning, if_neg Bool.false_ne_true, idle.release]
    exact .started idle (start_outcome program s)
  · rw [holds.isRunning, if_pos rfl]
    exact .held holds

/-- A session that was started holds its new process. -/
theorem holds_of_start {before : Session π} (started : before.start program = (.ok (), s)) :
    s.nextId = before.nextId ∧ s.starts = before.starts + 1 ∧
      ∃ state unread, s.Holds before.starts state unread := by
  have outcome := start_outcome program before
  rw [started] at outcome
  cases outcome with
  | ready => exact ⟨rfl, rfl, _, _, rfl, rfl, rfl⟩

theorem start_eq_of_isOk {before : Session π} (started : (before.start program).1.isOk = true) :
    before.start program = (.ok (), (before.start program).2) := by
  rcases result : before.start program with ⟨_ | ⟨⟩, s⟩
  · rw [result] at started
    cases started
  · rfl

/-! ### Requests -/

/-- What the request `id` leaves: it could not be written, the wait for its reply lost the process,
or the process is still held. -/
inductive Exchanged (program : Program π) (state : π) (unread : List Output) (op : String)
    (params : List (String × Json)) (s : Session π) : Except Error Response × Session π → Prop
  | unwritten {e : OsError}
      (request : program.request state (requestLine s.nextId op params) = .error e) :
      Exchanged program state unread op params s
        (.error (.crashed e.message), { s with nextId := s.nextId + 1 }.release)
  | lost {output skipped rest : List Output} {next : π} {reason : String}
      (request : program.request state (requestLine s.nextId op params) = .ok (output, next))
      (split : unread ++ output = skipped ++ rest) (passed : ∀ o ∈ skipped, PassedOver s.nextId o)
      (ends : Ends s.nextId rest (.error (.crashed reason), none)) :
      Exchanged program state unread op params s
        (.error (.crashed reason), { s with nextId := s.nextId + 1 }.release)
  | kept {output skipped rest left : List Output} {next : π} {result : Except Error Response}
      (request : program.request state (requestLine s.nextId op params) = .ok (output, next))
      (split : unread ++ output = skipped ++ rest) (passed : ∀ o ∈ skipped, PassedOver s.nextId o)
      (ends : Ends s.nextId rest (result, some left)) :
      Exchanged program state unread op params s (result, { s with
        nextId := s.nextId + 1
        stdin := some next
        stdout := some left })

/-- An exchange ends in one of the ways that `Exchanged` lists, whatever is still unread. -/
theorem exchange_outcome {number : Nat} {state : π} {unread : List Output}
    (holds : s.Holds number state unread) (op : String) (params : List (String × Json)) :
    Exchanged program state unread op params s (s.exchange program op params) := by
  unfold Session.exchange
  simp only [holds.stdin]
  cases request : program.request state (requestLine s.nextId op params) with
  | error e => exact .unwritten request
  | ok written =>
    rcases written with ⟨output, next⟩
    obtain ⟨skipped, rest, split, passed, ends⟩ := awaitReply_ends s.nextId (unread ++ output)
    simp only [receive, holds.stdout, Option.map_some]
    rcases result : awaitReply s.nextId (unread ++ output) with ⟨answer, _ | left⟩
    · rw [result] at ends
      cases ends with
      | closed => exact .lost request split passed .closed
      | unreadable e rest => exact .lost request split passed (.unreadable e rest)
    · rw [result] at ends
      exact .kept request split passed ends

/-- What sending a request comes to: no process could be started, or a process was at hand and the
request was exchanged with it. -/
inductive Sent (program : Program π) (op : String) (params : List (String × Json)) (s : Session π) :
    Except Error Response × Session π → Prop
  | unstarted {e : Error} {after : Session π} (idle : s.Idle)
      (started : Started program s (.error e, after)) : Sent program op params s (.error e, after)
  | exchanged {ready : Session π} {number : Nat} {state : π} {unread : List Output}
      {outcome : Except Error Response × Session π}
      (acquired : Acquired program s (.ok (), ready)) (holds : ready.Holds number state unread)
      (exchanged : Exchanged program state unread op params ready outcome) :
      Sent program op params s outcome

theorem Acquired.holds {ready : Session π} (acquired : Acquired program s (.ok (), ready)) :
    ∃ number state unread, ready.Holds number state unread := by
  cases acquired with
  | held holds => exact ⟨_, _, _, holds⟩
  | started idle started =>
    cases started with
    | ready start awaited => exact ⟨_, _, _, rfl, rfl, rfl⟩

theorem send_outcome (whole : s.Whole) (program : Program π) (op : String)
    (params : List (String × Json)) : Sent program op params s (s.send program op params) := by
  have acquired := ensureRunning_outcome whole program
  unfold Session.send
  rcases result : s.ensureRunning program with ⟨e | ⟨⟩, ready⟩ <;> rw [result] at acquired
  · cases acquired with
    | started idle started => exact .unstarted idle started
  · obtain ⟨number, state, unread, holds⟩ := acquired.holds
    exact .exchanged acquired holds (exchange_outcome holds op params)

end Session

/-! ### Histories -/

/-- What a client asks of a session. -/
inductive Call where
  | send (op : String) (params : List (String × Json))
  | shutdown

/-- A call on a session, and the program that processes follow while it lasts. -/
structure Turn (π : Type) where
  program : Program π
  call : Call
  before : Session π

namespace Turn

variable {π : Type}

/-- What a call comes to. -/
def outcome (t : Turn π) : Except Error (Option Response) × Session π :=
  match t.call with
  | .send op params =>
    let (result, s) := t.before.send t.program op params
    (result.map some, s)
  | .shutdown =>
    let (result, s) := t.before.shutdown t.program
    (result.map fun () => none, s)

def result (t : Turn π) : Except Error (Option Response) := t.outcome.1

def after (t : Turn π) : Session π := t.outcome.2

end Turn

def Session.turns {π : Type} : Session π → List (Program π × Call) → List (Turn π)
  | _, [] => []
  | s, (program, call) :: rest =>
    let turn : Turn π := ⟨program, call, s⟩
    turn :: turn.after.turns rest

end AutoDoc.Worker
