import AutoDoc.Proofs.Json.Members
import AutoDoc.Proofs.Worker.Lifecycle

/-!
# Replies belong to requests

Requests and replies on one session never cross (`replies_belong`). Every request has an identifier
of its own, greater than those before it, and is answered just by the first reply in the output not
read yet that carries this identifier. What an earlier request left unread, because a malformed line
ended its wait, is still there but answers no request with another identifier.
-/

namespace AutoDoc

namespace Worker

open Json

/-- A request carries its identifier unless a parameter takes its place. -/
theorem request_id (id : Nat) (op : String) {params : List (String × Json)}
    (plain : "id" ∉ params.map (·.1)) : (request id op params).get? "id" = some (.nat id) := by
  have absent : params.reverse.lookup "id" = none := by
    rwa [lookup_eq_none_iff, List.map_reverse, List.mem_reverse]
  change (sortMembers ([("id", .nat id), ("op", .str op)] ++ params)).lookup "id" = _
  rw [lookup_sortMembers, List.reverse_append, List.lookup_append, absent]
  rfl

/-! ### Exchanges -/

/-- A request that was put to a process, with the output in which its reply was looked for: what was
not read before and then what the request brought, unless it could not be written. -/
structure Exchange where
  id : Nat
  request : Json
  output : Except OsError (List Output)

/-- The exchange that sending a request comes to, if a process is at hand. -/
def Session.exchange? {π : Type} (program : Program π) (s : Session π) (op : String)
    (params : List (String × Json)) : Option Exchange :=
  match s.ensureRunning program with
  | (.error _, _) => none
  | (.ok (), ready) =>
    match ready.stdin, ready.stdout with
    | some state, some unread => some {
        id := ready.nextId
        request := request ready.nextId op params
        output := (program.request state (requestLine ready.nextId op params)).map
          fun (output, _) => unread ++ output }
    | _, _ => none

/-- The parameters of a call leave room for the identifier of its request. -/
def Call.Plain (call : Call) : Prop :=
  ∀ op params, call = .send op params → "id" ∉ params.map (·.1)

/-- The exchange of a call: shutting down asks the process that is held, if there is one. -/
def Turn.exchange? {π : Type} (t : Turn π) : Option Exchange :=
  match t.call with
  | .send op params => t.before.exchange? t.program op params
  | .shutdown =>
    if t.before.isRunning then t.before.exchange? t.program "shutdown" [] else none

/-- The first line that decodes to a reply with the identifier of the request decodes to `response`,
which tells no error; the lines before it are blank or replies to other requests, and `left` is
behind it. -/
def Exchange.AnsweredBy (x : Exchange) (response : Response) (left : List Output) : Prop :=
  ∃ skipped line, x.output = .ok (skipped ++ .ok line :: left) ∧
    (∀ o ∈ skipped, PassedOver x.id o) ∧
    Response.ofLine? (Text.trim line) = some response ∧ response.id = some x.id ∧
    response.status ≠ "error"

theorem Response.written_of_ofLine? {line : String} {response : Response}
    (decoded : Response.ofLine? line = some response) : line.isEmpty = false := by
  cases blank : line.isEmpty with
  | false => rfl
  | true =>
    obtain rfl : line = "" := by simpa using blank
    rw [show Response.ofLine? "" = none from rfl] at decoded
    cases decoded

/-- Blank lines and replies to other requests are passed over. -/
theorem awaitReply_passedOver {id : Nat} {skipped : List Output}
    (passed : ∀ o ∈ skipped, PassedOver id o) (rest : List Output) :
    awaitReply id (skipped ++ rest) = awaitReply id rest := by
  induction skipped with
  | nil => rfl
  | cons first behind ih =>
    obtain ⟨⟨line, rfl, reason⟩, later⟩ := List.forall_mem_cons.mp passed
    rw [List.cons_append, awaitReply]
    rcases reason with blank | ⟨response, decoded, other⟩
    · rw [if_pos blank, ih later]
    · simp [Response.written_of_ofLine? decoded, decoded, other, ih later]

theorem Exchange.AnsweredBy.awaitReply {x : Exchange} {response : Response}
    {left output : List Output} (answered : x.AnsweredBy response left) (read : x.output = .ok output) :
    awaitReply x.id output = (.ok response, some left) := by
  obtain ⟨skipped, line, split, passed, decoded, carried, status⟩ := answered
  obtain rfl : output = _ := Except.ok.inj (read.symm.trans split)
  rw [awaitReply_passedOver passed, Worker.awaitReply]
  simp [Response.written_of_ofLine? decoded, decoded, carried, status]

/-! ### Requests -/

variable {π : Type}

open Session

namespace Session

variable {s : Session π}

/-- Sending a request: no process is at hand, or the request is exchanged with one. -/
theorem send_exchange? (whole : s.Whole) (program : Program π) (op : String)
    (params : List (String × Json)) :
    (s.exchange? program op params = none ∧
      (∃ e, (s.send program op params).1 = .error e) ∧
      (s.send program op params).2.nextId = s.nextId) ∨
    ∃ (ready : Session π) (number : Nat) (state : π) (unread : List Output),
      ready.Holds number state unread ∧ ready.nextId = s.nextId ∧
      (∀ output, s.stdout = some output → unread = output) ∧
      s.send program op params = ready.exchange program op params ∧
      s.exchange? program op params = some ⟨s.nextId, request s.nextId op params,
        (program.request state (requestLine s.nextId op params)).map
          fun (output, _) => unread ++ output⟩ := by
  have acquired := ensureRunning_outcome whole program
  unfold Session.send Session.exchange?
  rcases result : s.ensureRunning program with ⟨e | ⟨⟩, ready⟩ <;> rw [result] at acquired
  · refine Or.inl ⟨rfl, ⟨e, rfl⟩, ?_⟩
    cases acquired with
    | started idle started => cases started <;> rfl
  · obtain ⟨number, state, unread, holds⟩ := acquired.holds
    have same : ready.nextId = s.nextId ∧ ∀ output, s.stdout = some output → unread = output := by
      cases acquired with
      | held => exact ⟨rfl, fun output read => Option.some.inj (holds.stdout.symm.trans read)⟩
      | started idle started =>
        refine ⟨by cases started; rfl, fun output read => ?_⟩
        rw [idle.stdout] at read
        cases read
    refine Or.inr ⟨ready, number, state, unread, holds, same.1, same.2, rfl, ?_⟩
    simp only [holds.stdin, holds.stdout, same.1]

/-- A request that is exchanged with a process uses up its identifier and returns what the wait for
the reply returns. -/
theorem exchange_awaits {number : Nat} {state : π} {unread : List Output}
    (holds : s.Holds number state unread) (program : Program π) (op : String)
    (params : List (String × Json)) : (s.exchange program op params).2.nextId = s.nextId + 1 ∧
      ((∃ e, program.request state (requestLine s.nextId op params) = .error e ∧
          ∃ e, (s.exchange program op params).1 = .error e) ∨
        ∃ output next, program.request state (requestLine s.nextId op params) = .ok (output, next) ∧
          (s.exchange program op params).1 = (awaitReply s.nextId (unread ++ output)).1 ∧
          (s.exchange program op params).2.stdout =
            (awaitReply s.nextId (unread ++ output)).2) := by
  unfold Session.exchange
  simp only [holds.stdin]
  cases written : program.request state (requestLine s.nextId op params) with
  | error e => exact ⟨rfl, Or.inl ⟨e, rfl, _, rfl⟩⟩
  | ok read =>
    rcases read with ⟨output, next⟩
    simp only [receive, holds.stdout, Option.map_some]
    rcases result : awaitReply s.nextId (unread ++ output) with ⟨answer, _ | left⟩
    · exact ⟨rfl, Or.inr ⟨output, next, rfl, by simp [result, Session.release]⟩⟩
    · exact ⟨rfl, Or.inr ⟨output, next, rfl, by simp [result]⟩⟩

/-- Sending a request comes to its exchange: without one it fails and uses up no identifier, with
one it uses up the identifier and returns what the wait for the reply returns. -/
theorem send_pairs (whole : s.Whole) (program : Program π) (op : String)
    (params : List (String × Json)) :
    (s.exchange? program op params = none ∧ (∃ e, (s.send program op params).1 = .error e) ∧
      (s.send program op params).2.nextId = s.nextId) ∨
    ∃ x, s.exchange? program op params = some x ∧ x.id = s.nextId ∧
      x.request = request s.nextId op params ∧
      (s.send program op params).2.nextId = s.nextId + 1 ∧
      (∀ output unread, x.output = .ok output → s.stdout = some unread → unread <+: output) ∧
      (∀ e, x.output = .error e → ∃ e, (s.send program op params).1 = .error e) ∧
      ∀ output, x.output = .ok output →
        (s.send program op params).1 = (awaitReply x.id output).1 ∧
        (s.send program op params).2.stdout = (awaitReply x.id output).2 := by
  rcases send_exchange? whole program op params with
    none | ⟨ready, number, state, unread, holds, same, queued, sent, exchange⟩
  · exact Or.inl none
  · obtain ⟨used, awaits⟩ := exchange_awaits holds program op params
    rw [same] at used awaits
    refine Or.inr ⟨_, exchange, rfl, rfl, by rw [sent, used], ?_⟩
    rw [sent]
    rcases awaits with ⟨e, unwritten, failed⟩ | ⟨output, next, written, result, left⟩
    · simp only [unwritten, Except.map]
      exact ⟨by simp, fun _ _ => failed, by simp⟩
    · simp only [written, Except.map, Except.ok.injEq]
      refine ⟨?_, by simp, ?_⟩
      · rintro all rest rfl read
        exact ⟨output, by rw [queued rest read]⟩
      · rintro all rfl
        exact ⟨result, left⟩

end Session

/-! ### Turns -/

namespace Turn

/-- What holds of the request of every call on a session. -/
structure Numbered (t : Turn π) : Prop where
  /-- A call that puts no request to a process uses up no identifier. -/
  unused : t.exchange? = none → t.after.nextId = t.before.nextId
  /-- A request has the next identifier, which is used up. -/
  numbered : ∀ x, t.exchange? = some x → x.id = t.before.nextId ∧ t.after.nextId = x.id + 1
  /-- The request carries its identifier. -/
  carried : ∀ x, t.exchange? = some x → x.request.get? "id" = some (.nat x.id)
  /-- What an earlier call left unread comes first. -/
  queued : ∀ x output unread, t.exchange? = some x → x.output = .ok output →
    t.before.stdout = some unread → unread <+: output

/-- The request of a call has its own number, and its result is told by the reply to it. -/
structure Paired (t : Turn π) : Prop extends Numbered t where
  /-- A call returns a response just if it sends a request that this response answers. -/
  answered : ∀ response, t.result = .ok (some response) ↔
    (∃ op params, t.call = .send op params) ∧ ∃ x left, t.exchange? = some x ∧
      t.after.stdout = some left ∧ x.AnsweredBy response left

/-- What holds of a call and a later one. -/
structure Apart (a b : Turn π) : Prop where
  /-- The identifiers of requests increase. -/
  increasing : ∀ x y, a.exchange? = some x → b.exchange? = some y → x.id < y.id
  /-- A reply to the earlier request is no answer to the later one. -/
  late : ∀ x response, a.exchange? = some x → response.id = some x.id →
    b.result ≠ .ok (some response)
  /-- A line that the earlier call left unread answers the later request only if it carries the
  identifier of that one. -/
  unread : ∀ left line response, a.after.stdout = some left → .ok line ∈ left →
    Response.ofLine? (Text.trim line) = some response → b.result = .ok (some response) →
    ∃ y, b.exchange? = some y ∧ response.id = some y.id

/-- A wait that returns a response was answered by it. -/
theorem answeredBy_of_awaitReply {x : Exchange} {output : List Output} {response : Response}
    (read : x.output = .ok output) (ok : (awaitReply x.id output).1 = .ok response) :
    ∃ left, (awaitReply x.id output).2 = some left ∧ x.AnsweredBy response left := by
  obtain ⟨skipped, rest, split, passed, ends⟩ := awaitReply_ends x.id output
  rcases result : awaitReply x.id output with ⟨answer, left⟩
  rw [result] at ends ok
  obtain rfl : answer = .ok response := ok
  obtain ⟨line, behind, rfl, rfl, decoded, carried, status⟩ := ends.answer
  exact ⟨behind, rfl, skipped, line, by rw [read, split], passed, decoded, carried, status⟩

/-- A call that comes to the exchange of a request. -/
theorem numbered_of_exchange {t : Turn π} (op : String) {params : List (String × Json)}
    (whole : t.before.Whole) (plain : "id" ∉ params.map (·.1))
    (exchange : t.exchange? = t.before.exchange? t.program op params)
    (used : t.after.nextId = (t.before.send t.program op params).2.nextId) : t.Numbered := by
  rcases send_pairs whole t.program op params with
    ⟨none, _, same⟩ | ⟨x, is, number, request, next, queued, _⟩
  · rw [← exchange] at none
    refine ⟨fun _ => used.trans same, ?_, ?_, ?_⟩
    all_goals simp [none]
  · rw [← exchange] at is
    refine ⟨by simp [is], ?_, ?_, ?_⟩
    · simp only [is, Option.some.injEq, forall_eq']
      exact ⟨number, by rw [used, next, number]⟩
    · simp only [is, Option.some.injEq, forall_eq']
      rw [request, number, request_id _ op plain]
    · intro y output unread is' read left
      obtain rfl := Option.some.inj (is.symm.trans is')
      exact queued output unread read left

/-- The result of a request is told by the reply that bears its number. -/
theorem paired_of_send {t : Turn π} {op : String} {params : List (String × Json)}
    (whole : t.before.Whole) (call : t.call = .send op params) (plain : "id" ∉ params.map (·.1)) :
    t.Paired := by
  obtain ⟨result, after⟩ := of_send call
  have exchange : t.exchange? = t.before.exchange? t.program op params := by
    unfold Turn.exchange?
    rw [call]
  refine ⟨numbered_of_exchange op whole plain exchange (by rw [after]), fun response => ?_⟩
  have returns : t.result = .ok (some response) ↔
      (t.before.send t.program op params).1 = .ok response := by
    rw [result]
    cases (t.before.send t.program op params).1 <;> simp [Except.map]
  rw [returns, exchange, after]
  rcases send_pairs whole t.program op params with
    ⟨none, ⟨e, failed⟩, _⟩ | ⟨x, is, _, _, _, _, unwritten, written⟩
  · simp [none, failed]
  · constructor
    · intro ok
      cases read : x.output with
      | error e =>
        obtain ⟨e', failed⟩ := unwritten e read
        rw [failed] at ok
        cases ok
      | ok output =>
        obtain ⟨answer, left⟩ := written output read
        obtain ⟨behind, unread, answered⟩ := answeredBy_of_awaitReply read (answer ▸ ok)
        exact ⟨⟨op, params, call⟩, x, behind, is, left.trans unread, answered⟩
    · rintro ⟨_, y, left, is', _, answered⟩
      obtain rfl := Option.some.inj (is.symm.trans is')
      obtain ⟨skipped, line, read, _⟩ := id answered
      rw [(written _ read).1, answered.awaitReply read]

/-- So is that of the request by which a process is ended. -/
theorem paired_of_shutdown {t : Turn π} (whole : t.before.Whole) (call : t.call = .shutdown) :
    t.Paired := by
  obtain ⟨result, after⟩ := of_shutdown call
  refine ⟨?_, fun response => ?_⟩
  · unfold Session.shutdown at after
    cases running : t.before.isRunning with
    | false =>
      have none : t.exchange? = none := by simp [Turn.exchange?, call, running]
      rw [running] at after
      refine ⟨fun _ => by rw [after]; rfl, ?_, ?_, ?_⟩
      all_goals simp [none]
    | true =>
      rw [running, if_pos rfl] at after
      have plain : "id" ∉ ([] : List (String × Json)).map (·.1) := List.not_mem_nil
      refine numbered_of_exchange "shutdown" whole plain ?_ ?_
      · simp [Turn.exchange?, call, running]
      · rw [after]
        rfl
  · have done : (t.before.shutdown t.program).1 = .ok () := by
      unfold Session.shutdown
      split <;> rfl
    simp [call, result, done, Except.map]

theorem paired {t : Turn π} (whole : t.before.Whole) (plain : t.call.Plain) : t.Paired := by
  cases call : t.call with
  | send op params => exact paired_of_send whole call (plain op params call)
  | shutdown => exact paired_of_shutdown whole call

/-- Identifiers that are used up are not taken back. -/
theorem Numbered.nextId_le {t : Turn π} (numbered : t.Numbered) :
    t.before.nextId ≤ t.after.nextId := by
  cases is : t.exchange? with
  | none => exact Nat.le_of_eq (numbered.unused is).symm
  | some x =>
    obtain ⟨id, next⟩ := numbered.numbered x is
    omega

/-- A call whose identifiers are used up before another one is apart from it. -/
theorem Paired.apart {a b : Turn π} (pairedA : a.Paired) (pairedB : b.Paired)
    (later : a.after.nextId ≤ b.before.nextId) : a.Apart b := by
  have increasing : ∀ x y, a.exchange? = some x → b.exchange? = some y → x.id < y.id := by
    intro x y isA isB
    obtain ⟨_, next⟩ := pairedA.numbered x isA
    obtain ⟨first, _⟩ := pairedB.numbered y isB
    omega
  have carries : ∀ response, b.result = .ok (some response) →
      ∃ y, b.exchange? = some y ∧ response.id = some y.id := by
    intro response ok
    obtain ⟨_, y, left, is, _, skipped, line, _, _, _, carried, _⟩ :=
      (pairedB.answered response).mp ok
    exact ⟨y, is, carried⟩
  refine ⟨increasing, fun x response isA same ok => ?_, fun _ _ response _ _ _ ok =>
    carries response ok⟩
  obtain ⟨y, isB, carried⟩ := carries response ok
  have less := increasing x y isA isB
  have equal : x.id = y.id := Option.some.inj (same.symm.trans carried)
  omega

end Turn

/-! ### Histories -/

/-- Every call of a history is paired and takes its identifiers from those not used up before. -/
theorem Session.paired_of_mem {s : Session π} (sound : s.Sound) {calls : List (Program π × Call)}
    (plain : ∀ call ∈ calls, call.2.Plain) {t : Turn π} (member : t ∈ s.turns calls) :
    t.Paired ∧ s.nextId ≤ t.before.nextId := by
  induction calls generalizing s with
  | nil => cases member
  | cons call rest ih =>
    obtain ⟨plainHere, plainLater⟩ := List.forall_mem_cons.mp plain
    have here : Turn.Paired ⟨call.1, call.2, s⟩ := Turn.paired sound.whole plainHere
    obtain ⟨_, advances⟩ := Turn.lifecycle (t := ⟨call.1, call.2, s⟩) sound
    rcases List.mem_cons.mp member with rfl | later
    · exact ⟨here, Nat.le_refl _⟩
    · obtain ⟨paired, after⟩ := ih advances.sound plainLater later
      exact ⟨paired, Nat.le_trans here.nextId_le after⟩

/-- No reply is spent on two turns, since the numbers of requests grow over the whole history. -/
theorem Session.turns_apart {s : Session π} (sound : s.Sound) {calls : List (Program π × Call)}
    (plain : ∀ call ∈ calls, call.2.Plain) : (s.turns calls).Pairwise Turn.Apart := by
  induction calls generalizing s with
  | nil => exact List.Pairwise.nil
  | cons call rest ih =>
    obtain ⟨plainHere, plainLater⟩ := List.forall_mem_cons.mp plain
    obtain ⟨_, advances⟩ := Turn.lifecycle (t := ⟨call.1, call.2, s⟩) sound
    refine List.pairwise_cons.mpr ⟨fun b later => ?_, ih advances.sound plainLater⟩
    obtain ⟨paired, after⟩ := Session.paired_of_mem advances.sound plainLater later
    exact (Turn.paired sound.whole plainHere).apart paired after

/-- For every session that was started, every history of calls whose parameters have no member `id`
and every behaviour of the processes: the identifiers of the requests increase, a request is answered
just by the first reply that carries its identifier, and no reply answers two requests. -/
theorem replies_belong (program : Program π) (starts : Nat) (s : Session π)
    (calls : List (Program π × Call))
    (spawned : Session.start program { starts } = (.ok (), s))
    (plain : ∀ call ∈ calls, call.2.Plain) :
    (((s.turns calls).filterMap Turn.exchange?).map Exchange.id).Pairwise (· < ·) ∧
      (∀ t ∈ s.turns calls, t.Paired) ∧ (s.turns calls).Pairwise Turn.Apart := by
  have sound := sound_of_start spawned
  have apart := Session.turns_apart sound plain
  refine ⟨?_, fun t member => (Session.paired_of_mem sound plain member).1, apart⟩
  rw [List.pairwise_map, List.pairwise_filterMap]
  exact apart.imp fun apart x isA y isB => apart.increasing x y isA isB

set_option maxRecDepth 100000 in
/-- A malformed line ends the wait for the first reply, which then stands in front of the reply to
the second request and is passed over. -/
theorem replies_belong_late :
    let late := "\x7b\"id\": $ID, \"status\": \"ok\"\x7d"
    let program := ({ rules := [{ op := some "stall", lines := ["malformed", late] }] } :
      Script).worker []
    let s := (Session.start program {}).2
    let turns := s.turns [(program, .send "stall" []), (program, .send "echo" [])]
    Session.start program {} = (.ok (), s) ∧
      turns.map (fun t =>
          (t.after.stdout.map List.length, t.result.toOption.map (Option.map (·.id)))) =
        [(some 1, none), (some 0, some (some (some 2)))] ∧
      (∀ t ∈ turns, t.Paired) ∧ turns.Pairwise Turn.Apart := by
  intro late program s turns
  have spawned : Session.start program {} = (.ok (), s) := start_eq_of_isOk (by decide +kernel)
  obtain ⟨_, paired, apart⟩ := replies_belong program 0 s
    [(program, .send "stall" []), (program, .send "echo" [])] spawned
    (by simp +contextual [Call.Plain])
  exact ⟨spawned, by decide +kernel, paired, apart⟩

end Worker

end AutoDoc
