import AutoDoc.Host.Script
import AutoDoc.Proofs.Worker.Calls

/-!
# The life of a session

Whatever its processes do, a session stays in one piece (`session_lifecycle`): after each call it
holds a process with both its ends or nothing at all, it starts a process just where a request finds
none, and what a call returns tells whether a process is left. A process that was lost is never dealt
with again, so it accounts for no more than one failure.
-/

namespace AutoDoc.Worker

variable {π : Type}

/-- Errors of a request that its process outlives. -/
def Error.spares : Error → Bool
  | .failed _ _ => true
  | .invalidResponse _ => true
  | _ => false

/-- Errors of a request that leave no process. -/
def Error.loses : Error → Bool
  | .crashed _ => true
  | .spawnFailed _ => true
  | _ => false

namespace Turn

def lost (t : Turn π) : Bool :=
  match t.result with
  | .error e => e.loses
  | .ok _ => false

/-- The process that a call deals with: the one that is held or else the one that it starts. -/
def process? (t : Turn π) : Option Nat :=
  t.before.child.or (if t.before.starts < t.after.starts then some t.before.starts else none)

/-- What a request returns tells whether a process is left. -/
def Told (result : Except Error (Option Response)) (after : Session π) : Prop :=
  (∃ response, result = .ok (some response)) ∧ after.isRunning = true ∨
    (∃ e, result = .error e ∧ e.spares = true) ∧ after.isRunning = true ∨
    (∃ e, result = .error e ∧ e.loses = true) ∧ after.isRunning = false

/-- What holds of every call on a session. -/
structure Orderly (t : Turn π) : Prop where
  /-- The process and its two ends are all there or all gone. -/
  whole : t.after.Whole
  /-- A process is started just if a request finds none; the start may be refused. -/
  started : t.after.starts ≠ t.before.starts ↔
    (∃ op params, t.call = .send op params) ∧ t.before.isRunning = false ∧
      ∃ output state, t.program.start t.before.starts = .ok (output, state)
  /-- It is the only one: none was held before, and no other is afterwards. -/
  single : t.after.starts = t.before.starts ∧
      (t.after.child = none ∨ t.after.child = t.before.child) ∨
    t.after.starts = t.before.starts + 1 ∧ t.before.child = none ∧
      (t.after.child = none ∨ t.after.child = some t.before.starts)
  /-- A start that is refused is told as such. -/
  refused : ∀ op params e, t.call = .send op params → t.before.isRunning = false →
    t.program.start t.before.starts = .error e → t.result = .error (.spawnFailed e.message)
  told : ∀ op params, t.call = .send op params → Told t.result t.after
  /-- After a call that failed so, the next request finds no process. -/
  gone : t.lost = true → t.after.isRunning = false
  /-- Shutting down leaves nothing and starts nothing. -/
  shutdown : t.call = .shutdown → t.result = .ok none ∧ t.after.isRunning = false ∧
    t.after.child = none ∧ t.after.starts = t.before.starts

end Turn

namespace Session

variable {program : Program π} {s : Session π}

/-! ### What a request leaves -/

theorem loses_of_spares {e : Error} (spares : e.spares = true) : e.loses = false := by
  cases e <;> first | rfl | cases spares

theorem Ends.spared {id : Nat} {output left : List Output} {result : Except Error Response}
    (ends : Ends id output (result, some left)) :
    (∃ response, result = .ok response) ∨ ∃ e, result = .error e ∧ e.spares = true := by
  cases ends with
  | malformed => exact Or.inr ⟨_, rfl, rfl⟩
  | refused => exact Or.inr ⟨_, rfl, rfl⟩
  | answered => exact Or.inl ⟨_, rfl⟩

/-- A request leaves nothing, or the process that it dealt with. -/
inductive Leaves (number starts : Nat) : Except Error Response × Session π → Prop
  | nothing {e : Error} {after : Session π} (loses : e.loses = true) (idle : after.Idle)
      (same : after.starts = starts) : Leaves number starts (.error e, after)
  | process {result : Except Error Response} {after : Session π} {state : π}
      {unread : List Output}
      (spared : (∃ response, result = .ok response) ∨ ∃ e, result = .error e ∧ e.spares = true)
      (holds : after.Holds number state unread) (same : after.starts = starts) :
      Leaves number starts (result, after)

theorem Exchanged.leaves {number : Nat} {state : π} {unread : List Output} {op : String}
    {params : List (String × Json)} {outcome : Except Error Response × Session π}
    (holds : s.Holds number state unread)
    (exchanged : Exchanged program state unread op params s outcome) :
    Leaves number s.starts outcome := by
  cases exchanged with
  | unwritten => exact .nothing rfl ⟨rfl, rfl, rfl⟩ rfl
  | lost => exact .nothing rfl ⟨rfl, rfl, rfl⟩ rfl
  | kept _ _ _ ends => exact .process (Ends.spared ends) ⟨holds.child, rfl, rfl⟩ rfl

/-- A request finds a process or starts one, unless the start is refused. -/
theorem send_leaves (whole : s.Whole) (program : Program π) (op : String)
    (params : List (String × Json)) :
    (∃ e, s.Idle ∧ program.start s.starts = .error e ∧
      s.send program op params = (.error (.spawnFailed e.message), s)) ∨
    (∃ output state, s.Idle ∧ program.start s.starts = .ok (output, state) ∧
      Leaves s.starts (s.starts + 1) (s.send program op params)) ∨
    ∃ number state unread, s.Holds number state unread ∧
      Leaves number s.starts (s.send program op params) := by
  have sent := send_outcome whole program op params
  generalize s.send program op params = outcome at sent ⊢
  cases sent with
  | unstarted idle started =>
    cases started with
    | refused start => exact Or.inl ⟨_, idle, start, rfl⟩
    | unready start => exact Or.inr (Or.inl ⟨_, _, idle, start, .nothing rfl ⟨rfl, rfl, rfl⟩ rfl⟩)
  | exchanged acquired holds exchanged =>
    have leaves := exchanged.leaves holds
    cases acquired with
    | held => exact Or.inr (Or.inr ⟨_, _, _, holds, leaves⟩)
    | started idle started =>
      cases started with
      | ready start =>
        obtain rfl := Option.some.inj holds.child
        exact Or.inr (Or.inl ⟨_, _, idle, start, leaves⟩)

/-! ### What a call keeps -/

/-- A session in one piece, whose process was started by it. -/
structure Sound (s : Session π) : Prop where
  whole : s.Whole
  numbered : ∀ number, s.child = some number → number < s.starts

theorem Idle.sound (idle : s.Idle) : s.Sound :=
  ⟨idle.whole, fun number held => by rw [idle.child] at held; cases held⟩

theorem Holds.sound {number : Nat} {state : π} {unread : List Output}
    (holds : s.Holds number state unread) (earlier : number < s.starts) : s.Sound := by
  refine ⟨holds.whole, fun other held => ?_⟩
  rw [holds.child] at held
  cases held
  exact earlier

theorem sound_of_start {before : Session π} (started : before.start program = (.ok (), s)) :
    s.Sound := by
  obtain ⟨_, starts, state, unread, holds⟩ := holds_of_start started
  exact holds.sound (by omega)

/-- The process that the next request deals with. -/
def current (s : Session π) : Nat := s.child.getD s.starts

theorem Idle.current (idle : s.Idle) : s.current = s.starts := by
  rw [Session.current, idle.child]
  rfl

theorem Holds.current {number : Nat} {state : π} {unread : List Output}
    (holds : s.Holds number state unread) : s.current = number := by
  rw [Session.current, holds.child]
  rfl

/-- How a session goes on after a call. -/
structure Advances (before after : Session π) (lost : Bool) : Prop where
  sound : after.Sound
  current : before.current ≤ after.current
  /-- A process that was lost lies behind; none was if no process was held or started. -/
  behind : lost = true →
    before.current < after.current ∨ before.child = none ∧ after.starts = before.starts

theorem Leaves.child {number starts : Nat} {outcome : Except Error Response × Session π}
    (leaves : Leaves number starts outcome) :
    outcome.2.child = none ∨ outcome.2.child = some number := by
  cases leaves with
  | nothing _ idle => exact Or.inl idle.child
  | process _ holds => exact Or.inr holds.child

theorem Leaves.starts_eq {number starts : Nat} {outcome : Except Error Response × Session π}
    (leaves : Leaves number starts outcome) : outcome.2.starts = starts := by
  cases leaves <;> assumption

theorem Leaves.told {number starts : Nat} {outcome : Except Error Response × Session π}
    (leaves : Leaves number starts outcome) : Turn.Told (outcome.1.map some) outcome.2 := by
  cases leaves with
  | nothing loses idle => exact Or.inr (Or.inr ⟨⟨_, rfl, loses⟩, idle.isRunning⟩)
  | process spared holds =>
    rcases spared with ⟨response, rfl⟩ | ⟨e, rfl, spares⟩
    · exact Or.inl ⟨⟨response, rfl⟩, holds.isRunning⟩
    · exact Or.inr (Or.inl ⟨⟨e, rfl, spares⟩, holds.isRunning⟩)

/-- A request that dealt with the current process advances the session. -/
theorem Leaves.advances {number starts : Nat} {outcome : Except Error Response × Session π}
    (leaves : Leaves number starts outcome) (deals : s.current = number)
    (earlier : number < starts) {lost : Bool}
    (failed : lost = true → ∃ e, outcome.1 = .error e ∧ e.loses = true) :
    Advances s outcome.2 lost := by
  cases leaves with
  | nothing loses idle same =>
    have later := idle.current
    dsimp only
    exact ⟨idle.sound, by omega, fun _ => Or.inl (by omega)⟩
  | process spared holds same =>
    have here := holds.current
    dsimp only at failed ⊢
    refine ⟨holds.sound (by omega), by omega, fun lost => ?_⟩
    obtain ⟨e, is, loses⟩ := failed lost
    rcases spared with ⟨response, ok⟩ | ⟨e', error, spares⟩
    · rw [ok] at is
      cases is
    · rw [error] at is
      cases is
      rw [loses_of_spares spares] at loses
      cases loses

end Session

open Session

namespace Turn

theorem of_send {t : Turn π} {op : String} {params : List (String × Json)}
    (call : t.call = .send op params) :
    t.result = (t.before.send t.program op params).1.map some ∧
      t.after = (t.before.send t.program op params).2 := by
  unfold result after outcome
  rw [call]
  exact ⟨rfl, rfl⟩

theorem of_shutdown {t : Turn π} (call : t.call = .shutdown) :
    t.result = (t.before.shutdown t.program).1.map (fun () => none) ∧
      t.after = (t.before.shutdown t.program).2 := by
  unfold result after outcome
  rw [call]
  exact ⟨rfl, rfl⟩

theorem lost_failed {t : Turn π} {result : Except Error Response}
    (same : t.result = result.map some) (lost : t.lost = true) :
    ∃ e, result = .error e ∧ e.loses = true := by
  unfold Turn.lost at lost
  rw [same] at lost
  cases result with
  | ok response => cases lost
  | error e => exact ⟨e, rfl, lost⟩

theorem gone_of_told {t : Turn π} (told : Told t.result t.after) (lost : t.lost = true) :
    t.after.isRunning = false := by
  unfold Turn.lost at lost
  rcases told with ⟨⟨response, answered⟩, _⟩ | ⟨⟨e, failed, spares⟩, _⟩ | ⟨_, idle⟩
  · rw [answered] at lost
    cases lost
  · rw [failed] at lost
    exact absurd (loses_of_spares spares) (by simpa using lost)
  · exact idle

/-- Sending a request is orderly and advances the session. -/
theorem lifecycle_of_send {t : Turn π} {op : String} {params : List (String × Json)}
    (sound : t.before.Sound) (call : t.call = .send op params) :
    t.Orderly ∧ Advances t.before t.after t.lost := by
  obtain ⟨result, after⟩ := of_send call
  have noShutdown : t.call = .shutdown → t.result = .ok none ∧ t.after.isRunning = false ∧
      t.after.child = none ∧ t.after.starts = t.before.starts := by simp [call]
  rcases send_leaves sound.whole t.program op params with
    ⟨e, idle, start, sent⟩ | ⟨output, state, idle, start, leaves⟩ |
      ⟨number, state, unread, holds, leaves⟩
  · rw [sent] at result after
    dsimp only at after
    have told : Told t.result t.after :=
      Or.inr (Or.inr ⟨⟨_, result, rfl⟩, by rw [after, idle.isRunning]⟩)
    refine ⟨⟨after ▸ sound.whole, ?_, ?_, ?_, fun _ _ _ => told, gone_of_told told, noShutdown⟩,
      after ▸ sound, after ▸ Nat.le_refl _, ?_⟩
    · simp [after, start]
    · exact Or.inl ⟨by rw [after], Or.inr (by rw [after])⟩
    · intro op' params' e' same _ refused
      rw [start] at refused
      cases refused
      exact result
    · exact fun _ => Or.inr ⟨idle.child, by rw [after]⟩
  · have told : Told t.result t.after := by
      rw [result, after]
      exact leaves.told
    have advances : Advances t.before t.after t.lost := by
      rw [after]
      exact leaves.advances idle.current (by omega) (lost_failed result)
    refine ⟨⟨advances.sound.whole, ?_, ?_, ?_, fun _ _ _ => told, gone_of_told told, noShutdown⟩,
      advances⟩
    · refine ⟨fun _ => ⟨⟨op, params, call⟩, idle.isRunning, output, state, start⟩, fun _ => ?_⟩
      rw [after, leaves.starts_eq]
      omega
    · exact Or.inr ⟨by rw [after, leaves.starts_eq], idle.child, after ▸ leaves.child⟩
    · intro op' params' e' _ _ refused
      rw [start] at refused
      cases refused
  · have told : Told t.result t.after := by
      rw [result, after]
      exact leaves.told
    have advances : Advances t.before t.after t.lost := by
      rw [after]
      exact leaves.advances holds.current (sound.numbered _ holds.child) (lost_failed result)
    refine ⟨⟨advances.sound.whole, ?_, ?_, ?_, fun _ _ _ => told, gone_of_told told, noShutdown⟩,
      advances⟩
    · simp [after, leaves.starts_eq, holds.isRunning]
    · refine Or.inl ⟨by rw [after, leaves.starts_eq], ?_⟩
      rw [after, holds.child]
      exact leaves.child
    · intro op' params' e' _ idle
      rw [holds.isRunning] at idle
      cases idle

/-- Shutting down is orderly and advances the session. -/
theorem lifecycle_of_shutdown {t : Turn π} (sound : t.before.Sound) (call : t.call = .shutdown) :
    t.Orderly ∧ Advances t.before t.after t.lost := by
  obtain ⟨result, after⟩ := of_shutdown call
  have noSend : ∀ op params, t.call ≠ .send op params := by simp [call]
  obtain ⟨done, idle, same⟩ : t.result = .ok none ∧ t.after.Idle ∧
      t.after.starts = t.before.starts := by
    unfold Session.shutdown at result after
    rcases send_leaves sound.whole t.program "shutdown" [] with
      ⟨_, idle, _⟩ | ⟨_, _, idle, _⟩ | ⟨number, state, unread, holds, leaves⟩
    · rw [idle.isRunning, if_neg Bool.false_ne_true] at result after
      exact ⟨result, after ▸ idle, by rw [after]⟩
    · rw [idle.isRunning, if_neg Bool.false_ne_true] at result after
      exact ⟨result, after ▸ idle, by rw [after]⟩
    · rw [holds.isRunning, if_pos rfl] at result after
      exact ⟨result, after ▸ release_idle _, by rw [after]; exact leaves.starts_eq⟩
  refine ⟨⟨idle.whole, ?_, ?_, ?_, ?_, fun _ => idle.isRunning, ?_⟩, idle.sound, ?_, ?_⟩
  · simp [same, call]
  · exact Or.inl ⟨same, Or.inl idle.child⟩
  · exact fun op params _ send => absurd send (noSend op params)
  · exact fun op params send => absurd send (noSend op params)
  · exact fun _ => ⟨done, idle.isRunning, idle.child, same⟩
  · rw [idle.current, same, Session.current]
    cases held : t.before.child with
    | none => exact Nat.le_refl _
    | some number => exact Nat.le_of_lt (sound.numbered number held)
  · intro lost
    rw [Turn.lost, done] at lost
    cases lost

/-- Every call is orderly and advances the session. -/
theorem lifecycle {t : Turn π} (sound : t.before.Sound) :
    t.Orderly ∧ Advances t.before t.after t.lost := by
  cases call : t.call with
  | send op params => exact lifecycle_of_send sound call
  | shutdown => exact lifecycle_of_shutdown sound call

end Turn

/-! ### Histories -/

namespace Session

/-- No call goes back behind the process that was current before it. -/
theorem current_le_of_mem {s : Session π} (sound : s.Sound) {calls : List (Program π × Call)}
    {t : Turn π} (member : t ∈ s.turns calls) : t.before.Sound ∧ s.current ≤ t.before.current := by
  induction calls generalizing s with
  | nil => cases member
  | cons call rest ih =>
    obtain ⟨_, advances⟩ := Turn.lifecycle (t := ⟨call.1, call.2, s⟩) sound
    rcases List.mem_cons.mp member with rfl | later
    · exact ⟨sound, Nat.le_refl _⟩
    · obtain ⟨soundLater, after⟩ := ih advances.sound later
      exact ⟨soundLater, Nat.le_trans advances.current after⟩

/-- A process that a call deals with is the current one. -/
theorem process_eq {t : Turn π} {number : Nat} (deals : t.process? = some number) :
    number = t.before.current := by
  unfold Turn.process? at deals
  unfold Session.current
  cases held : t.before.child with
  | some other =>
    rw [held] at deals
    exact (Option.some.inj deals).symm
  | none =>
    rw [held] at deals
    simp only [Option.none_or] at deals
    split at deals
    · exact (Option.some.inj deals).symm
    · cases deals

/-- Once a process was lost, no later call deals with it. -/
theorem turns_leave_lost {s : Session π} (sound : s.Sound) (calls : List (Program π × Call)) :
    (s.turns calls).Pairwise fun a b => a.lost = true → ∀ number, a.process? = some number →
      b.process? ≠ some number := by
  induction calls generalizing s with
  | nil => exact List.Pairwise.nil
  | cons call rest ih =>
    obtain ⟨_, advances⟩ := Turn.lifecycle (t := ⟨call.1, call.2, s⟩) sound
    refine List.pairwise_cons.mpr ⟨fun b later lost number deals again => ?_, ih advances.sound⟩
    obtain ⟨_, onward⟩ := current_le_of_mem advances.sound later
    have here := process_eq deals
    have there := process_eq again
    rcases advances.behind lost with behind | ⟨none, same⟩
    · dsimp only at here behind
      omega
    · -- Nothing was held and nothing started, so the call dealt with no process.
      unfold Turn.process? at deals
      dsimp only at none same
      simp [none, same] at deals

end Session

/-- For every session that was started, every history of calls and every behaviour of the processes:
each call is orderly, and once a process was lost no later call deals with it. -/
theorem session_lifecycle (program : Program π) (starts : Nat) (s : Session π)
    (calls : List (Program π × Call))
    (spawned : Session.start program { starts } = (.ok (), s)) :
    s.Whole ∧ s.isRunning = true ∧ s.starts = starts + 1 ∧
      (∀ t ∈ s.turns calls, t.Orderly) ∧
      (s.turns calls).Pairwise fun a b => a.lost = true → ∀ number, a.process? = some number →
        b.process? ≠ some number := by
  have sound := sound_of_start spawned
  obtain ⟨_, started, state, unread, holds⟩ := holds_of_start spawned
  refine ⟨sound.whole, holds.isRunning, started, fun t member => ?_, turns_leave_lost sound calls⟩
  exact (Turn.lifecycle (current_le_of_mem sound member).1).1

set_option maxRecDepth 100000 in
/-- A process that ends in the middle of a request costs that request; the next one starts another
process, and shutting down starts none. -/
theorem session_lifecycle_restarted :
    let program := ({ rules := [{ op := some "die", ends := true }] } : Script).worker []
    let s := (Session.start program {}).2
    let turns := s.turns
      [(program, .send "die" []), (program, .shutdown), (program, .send "echo" []),
        (program, .shutdown)]
    Session.start program {} = (.ok (), s) ∧
      turns.map (fun t => (t.lost, t.after.starts)) =
        [(true, 1), (false, 1), (false, 2), (false, 2)] ∧
      ∀ t ∈ turns, t.Orderly := by
  intro program s turns
  have spawned : Session.start program {} = (.ok (), s) := start_eq_of_isOk (by decide +kernel)
  obtain ⟨_, _, _, orderly, _⟩ := session_lifecycle program 0 s
    [(program, .send "die" []), (program, .shutdown), (program, .send "echo" []),
      (program, .shutdown)] spawned
  exact ⟨spawned, by decide +kernel, orderly⟩

end AutoDoc.Worker
