import AutoDoc.Proofs.Toolkit.Simulation
import AutoDoc.Proofs.Worker.Messages
import AutoDoc.Proofs.Worker.Replies

/-!
# Workers that host a toolkit

A program hosts the tables of a toolkit if its processes become ready and answer every operation
with what the tables have for its argument (`Hosts`). A request to a service with such a worker
comes to this result, a failure with the message of the worker, and leaves the service ready for the
next one (`Service.call_simulates`). So the service and the tables cannot be told apart as toolkits
(`Hosts.toolkit_simulates`).
-/

namespace AutoDoc.Worker

open Json

variable {π : Type}

/-! ### Programs that host a toolkit -/

/-- A process in a serving state answers every line that reads as a request for the operation, with
one line that tells the result, and goes on serving. -/
def Answers {α : Type} (program : Program π) (serving : π → Prop) (op : String)
    (params : List (String × Json)) (key : String) (write : α → Json)
    (result : Except ToolkitError α) : Prop :=
  ∀ state line request id, serving state → Json.parse? line = some request →
    id < Word.limit64 → request.get? "id" = some (.nat id) →
    request.get? "op" = some (.str op) → (∀ m ∈ params, request.get? m.1 = some m.2) →
    ∃ text next, program.request state line = .ok ([.ok text], next) ∧ serving next ∧
      Tells text (replyMembers id key write result)

/-- Processes of a program become ready and answer from the tables of a toolkit. -/
structure Hosts (program : Program π) (t : TableToolkit) (serving : π → Prop) : Prop where
  start : ∀ n, ∃ output state version, program.start n = .ok (output, state) ∧
    awaitReady output = .ok (version, []) ∧ serving state
  knownVerbs : ∃ verbs : List String, (∀ verb, verb ∈ verbs ↔ verb ∈ t.verbs) ∧
    Answers program serving "known_verbs" [] "verbs" texts (.ok verbs)
  segment : ∀ identifier, Answers program serving "segment" [("identifier", .str identifier)]
    "words" texts (t.segment identifier)
  spellCorrect : ∀ words, Answers program serving "spell_correct" [("words", texts words)]
    "words" texts (t.spellCorrect words)
  tag : ∀ phrase, Answers program serving "pos_tag" [("phrase", .str phrase)]
    "tokens" (fun tokens => .arr (tokens.map Token.toJson)) (t.tag phrase)
  stem : ∀ words, Answers program serving "stem" [("words", texts words)]
    "stems" texts (t.stem words)

/-! ### One request -/

/-- What the service makes of a result: a failure carries the code and the message of the reply. -/
def relayed {α : Type} (op : String) (result : Except ToolkitError α) : Except ToolkitError α :=
  result.mapError fun _ => .requestFailed op "RuntimeError: toolkit offline"

/-- A request to a process whose output was read up to its reply. -/
theorem Session.send_of_reply {program : Program π} {s : Session π} {number : Nat} {state next : π}
    {op line : String} {params : List (String × Json)} {response : Response}
    (holds : s.Holds number state [])
    (request : program.request state (requestLine s.nextId op params) = .ok ([.ok line], next))
    (decoded : Response.ofLine? (Text.trim line) = some response)
    (carried : response.id = some s.nextId) :
    s.send program op params =
      (if response.status == "error" then
        .error (.failed (response.errorCode.getD "") (response.message.getD ""))
      else .ok response,
      { s with nextId := s.nextId + 1, stdin := some next, stdout := some [] }) := by
  have awaited : awaitReply s.nextId [.ok line] =
      (if response.status == "error" then
        .error (.failed (response.errorCode.getD "") (response.message.getD ""))
      else .ok response, some []) := by
    have written := Response.written_of_ofLine? decoded
    simp only [awaitReply, written, decoded, carried, bne_self_eq_false, Bool.false_eq_true,
      if_false]
    split <;> rfl
  unfold Session.send Session.ensureRunning
  rw [holds.isRunning, if_pos rfl]
  simp only [Session.exchange, holds.stdin, request, Session.receive, holds.stdout, Option.map_some,
    List.nil_append, awaited]

/-- The messages of an operation carry its arguments to the worker and its results back. -/
structure Conveys {α : Type} (params : List (String × Json)) (key : String) (write : α → Json)
    (read : Json → Option α) : Prop where
  distinct : ("id" :: "op" :: params.map (·.1)).Nodup
  printable : ∀ m ∈ params, Printable 126 m.2
  free : key ∉ Response.fields
  readable : ∀ a, (write a).readable = true
  back : ∀ a, read (write a).collapse = some a

theorem conveys_texts {params : List (String × Json)} {key : String}
    (distinct : ("id" :: "op" :: params.map (·.1)).Nodup)
    (printable : ∀ m ∈ params, Printable 126 m.2) (free : key ∉ Response.fields) :
    Conveys params key texts (list? text?) :=
  ⟨distinct, printable, free, readable_texts, fun xs => by rw [collapse_texts, list?_texts]⟩

theorem conveys_tokens (phrase : String) :
    Conveys [("phrase", .str phrase)] "tokens"
      (fun tokens => .arr (tokens.map Token.toJson)) (list? Token.ofJson?) where
  distinct := by simp
  printable := by simpa using Printable.str phrase
  free := by decide
  readable := itemsReadable_map fun _ => rfl
  back tokens := by
    rw [collapse, collapseItems_map, list?_map Token.ofJson?_collapse]

section

variable {α : Type} {program : Program π} {serving : π → Prop} {op key : String}
  {params : List (String × Json)} {write : α → Json} {read : Json → Option α}
  {result : Except ToolkitError α}

/-- What is asked of a process that answers is its result. -/
theorem ask_of_answers {s : Session π} {number : Nat} {state : π}
    (answers : Answers program serving op params key write result)
    (conveys : Conveys params key write read)
    (holds : s.Holds number state []) (serves : serving state) (small : s.nextId < Word.limit64) :
    ∃ next, serving next ∧ Service.ask program op key params read s =
      (relayed op result,
        { s with nextId := s.nextId + 1, stdin := some next, stdout := some [] }) := by
  obtain ⟨line, next, answered, goesOn, tells⟩ := answers state _ _ s.nextId serves
    (parse?_requestLine small conveys.printable) small
    (request_get? conveys.distinct List.mem_cons_self)
    (request_get? conveys.distinct (List.mem_cons_of_mem _ List.mem_cons_self))
    fun m member =>
      request_get? conveys.distinct (List.mem_cons_of_mem _ (List.mem_cons_of_mem _ member))
  refine ⟨next, goesOn, ?_⟩
  cases result with
  | ok a =>
    have decoded := tells.ok small conveys.free (conveys.readable a)
    rw [Service.ask, Session.send_of_reply holds answered decoded rfl]
    simp [conveys.back, relayed, Except.mapError]
  | error e =>
    have decoded := tells.error small
    rw [Service.ask, Session.send_of_reply holds answered decoded rfl]
    simp [toolkitError, relayed, Except.mapError]

/-- The service is open, its process serves and was listened to, and identifiers are left for `room`
more requests. -/
structure Service.Ready (serving : π → Prop) (room : Nat) (service : Service π) : Prop where
  notClosed : service.closed = false
  process : ∃ number state, service.session.Holds number state [] ∧ serving state
  identifiers : service.session.nextId + room ≤ Word.limit64

/-- The service is ready, beside any state of another toolkit. -/
def Service.Beside (τ : Type) (serving : π → Prop) (room : Nat) (service : Service π) (_ : τ) :
    Prop :=
  service.Ready serving room

theorem Service.Beside.less {τ : Type} (room : Nat) (service : Service π) (state : τ)
    (ready : Beside τ serving (room + 1) service state) : Beside τ serving room service state :=
  ⟨ready.notClosed, ready.process, by have := ready.identifiers; omega⟩

/-- A request to the service comes to the result that the worker tells, and costs an identifier. -/
theorem Service.call_simulates {τ : Type}
    (answers : Answers program serving op params key write result)
    (conveys : Conveys params key write read) :
    Simulates (Beside τ serving) 1 Eq
      (call program op key params read).run (pure (relayed op result)) := by
  intro room service _ ready
  obtain ⟨number, state, holds, serves⟩ := ready.process
  have room' := ready.identifiers
  obtain ⟨next, goesOn, asked⟩ := ask_of_answers answers conveys holds serves (by omega)
  have called : (call program op key params read).run.run service = (relayed op result,
      { service with session := { service.session with
          nextId := service.session.nextId + 1, stdin := some next, stdout := some [] } }) := by
    simp only [call, ExceptT.run_mk, StateT.run, ready.notClosed, Bool.false_eq_true, if_false,
      asked]
  rw [called]
  exact ⟨rfl, ready.notClosed, ⟨number, next, ⟨holds.child, rfl, rfl⟩, goesOn⟩,
    by change service.session.nextId + 1 + room ≤ _; omega⟩

end

/-! ### All requests -/

theorem relayed_sameAnswer {α : Type} (op : String) (result : Except ToolkitError α) :
    SameAnswer (relayed op result) result := by
  intro a
  cases result <;> simp [relayed, Except.mapError]

namespace Hosts

variable {π τ : Type} {program : Program π} {t : TableToolkit} {serving : π → Prop}
  (hosts : Hosts program t serving)
include hosts

theorem segment_simulates (identifier : String) (verbs : List String) :
    Simulates (Service.Beside τ serving) 1 Eq
      ((Service.toolkit program verbs).segment identifier).run
      (pure (relayed "segment" (t.segment identifier))) :=
  Service.call_simulates (hosts.segment identifier)
    (conveys_texts (by simp) (by simpa using Printable.str identifier) (by decide))

theorem spellCorrect_simulates (words verbs : List String) :
    Simulates (Service.Beside τ serving) 1 Eq
      ((Service.toolkit program verbs).spellCorrect words).run
      (pure (relayed "spell_correct" (t.spellCorrect words))) :=
  Service.call_simulates (hosts.spellCorrect words)
    (conveys_texts (by simp) (by simpa using Printable.texts words) (by decide))

theorem tag_simulates (phrase : String) (verbs : List String) :
    Simulates (Service.Beside τ serving) 1 Eq
      ((Service.toolkit program verbs).tag phrase).run (pure (relayed "pos_tag" (t.tag phrase))) :=
  Service.call_simulates (hosts.tag phrase) (conveys_tokens phrase)

theorem stem_simulates (words verbs : List String) :
    Simulates (Service.Beside τ serving) 1 Eq
      ((Service.toolkit program verbs).stem words).run (pure (relayed "stem" (t.stem words))) :=
  Service.call_simulates (hosts.stem words)
    (conveys_texts (by simp) (by simpa using Printable.texts words) (by decide))

/-- The service as a toolkit, and the tables as one. -/
theorem toolkit_simulates {verbs : List String} (same : ∀ verb, verb ∈ verbs ↔ verb ∈ t.verbs) :
    (Service.toolkit program verbs).Simulates (Service.Beside τ serving) t.toolkit where
  segment identifier := (hosts.segment_simulates identifier verbs).of_eq (relayed_sameAnswer _ _)
  spellCorrect words := (hosts.spellCorrect_simulates words verbs).of_eq (relayed_sameAnswer _ _)
  tag phrase := (hosts.tag_simulates phrase verbs).of_eq (relayed_sameAnswer _ _)
  stem words := (hosts.stem_simulates words verbs).of_eq (relayed_sameAnswer _ _)
  verbs := same

/-- The service starts, asks for the verbs, and has the identifiers behind these two left. -/
theorem start_ready (starts : Nat) :
    ∃ service, Service.start program starts = (.ok service, starts + 1) ∧
      (∀ verb, verb ∈ service.verbs ↔ verb ∈ t.verbs) ∧
      Service.Ready serving (Word.limit64 - 2) service := by
  obtain ⟨output, state, version, started, awaited, serves⟩ := hosts.start starts
  obtain ⟨verbs, same, answers⟩ := hosts.knownVerbs
  let session : Session π :=
    { starts := starts + 1, child := some starts, stdin := some state, stdout := some [],
      version := some version }
  have began : Session.start program { starts } = (.ok (), session) := by
    simp only [Session.start, started, Session.becomeReady, awaited]
    rfl
  have holds : session.Holds starts state [] := ⟨rfl, rfl, rfl⟩
  have first : session.nextId < Word.limit64 := show 1 < Word.limit64 by decide
  obtain ⟨next, goesOn, asked⟩ := ask_of_answers answers
    (conveys_texts (by decide) (by simp) (by decide)) holds serves first
  refine ⟨{ session := { session with nextId := 2, stdin := some next, stdout := some [] }, verbs },
    ?_, same, rfl, ⟨starts, next, ⟨rfl, rfl, rfl⟩, goesOn⟩, ?_⟩
  · simp only [Service.start, began, asked]
    rfl
  · change 2 + (Word.limit64 - 2) ≤ Word.limit64
    decide

end Hosts

end AutoDoc.Worker
