import AutoDoc.Docstring.Block
import Mathlib.Data.Option.Basic

/-!
# Toolkits that describe alike

Two computations with states of different kinds are run side by side, from states that stay related.
The relation counts the requests that may still be made: a computation has a cost, and leaves that
much less room (`Simulates.bind`). Descriptions use no more of a failed request than that it failed,
so toolkits whose requests give the same answers lead to the same documentation blocks
(`Docstring.block_simulates`), at the cost of four requests.
-/

namespace AutoDoc

/-- From states that are related with room for `cost` more requests, the computations come to related
results and leave related states. -/
def Simulates {σ τ α β : Type} (R : Nat → σ → τ → Prop) (cost : Nat) (S : α → β → Prop)
    (x : StateM σ α) (y : StateM τ β) : Prop :=
  ∀ room s t, R (room + cost) s t → S (x.run s).1 (y.run t).1 ∧ R room (x.run s).2 (y.run t).2

/-- The results are the same, or both are failures. -/
def SameAnswer {ε α : Type} (a b : Except ε α) : Prop := ∀ v, a = .ok v ↔ b = .ok v

theorem SameAnswer.cases {ε α : Type} {a b : Except ε α} (same : SameAnswer a b) :
    (∃ v, a = .ok v ∧ b = .ok v) ∨ ∃ e e', a = .error e ∧ b = .error e' := by
  cases a with
  | ok v => exact Or.inl ⟨v, rfl, (same v).mp rfl⟩
  | error e =>
    cases b with
    | ok v => exact absurd ((same v).mpr rfl) nofun
    | error e' => exact Or.inr ⟨e, e', rfl, rfl⟩

namespace Simulates

variable {σ τ α β γ δ : Type} {R : Nat → σ → τ → Prop} {cost cost' : Nat} {S : α → β → Prop}
  {T : γ → δ → Prop} {x : StateM σ α} {y : StateM τ β}

theorem pure {a : α} {b : β} (related : S a b) :
    Simulates R 0 S (Pure.pure a : StateM σ α) (Pure.pure b : StateM τ β) :=
  fun _ _ _ before => ⟨related, before⟩

theorem bind {f : α → StateM σ γ} {g : β → StateM τ δ} (first : Simulates R cost S x y)
    (next : ∀ a b, S a b → Simulates R cost' T (f a) (g b)) :
    Simulates R (cost + cost') T (x >>= f) (y >>= g) := by
  intro room s t before
  have arranged : room + (cost + cost') = room + cost' + cost := by omega
  obtain ⟨related, between⟩ := first (room + cost') s t (arranged ▸ before)
  exact next _ _ related room _ _ between

/-- A computation that goes on from one result. -/
theorem bind_pure {f : α → StateM σ γ} {a : α} {c : γ}
    (first : Simulates R cost Eq x (Pure.pure a : StateM τ α))
    (next : Simulates R cost' Eq (f a) (Pure.pure c : StateM τ γ)) :
    Simulates R (cost + cost') Eq (x >>= f) (Pure.pure c : StateM τ γ) := by
  intro room s t before
  have arranged : room + (cost + cost') = room + cost' + cost := by omega
  obtain ⟨here, between⟩ := first (room + cost') s t (arranged ▸ before)
  change ((f (x.run s).1).run (x.run s).2).1 = c ∧ R room ((f (x.run s).1).run (x.run s).2).2 t
  rw [here]
  exact next room _ t between

theorem map {a : α} (simulates : Simulates R cost Eq x (Pure.pure a : StateM τ α)) (f : α → γ) :
    Simulates R cost Eq (x >>= fun r => Pure.pure (f r)) (Pure.pure (f a) : StateM τ γ) :=
  bind_pure (f := fun r => Pure.pure (f r)) simulates (pure rfl)

/-- A computation that gives one result goes with any result related to it. -/
theorem of_eq {a : α} {b : β} (simulates : Simulates R cost Eq x (Pure.pure a : StateM τ α))
    (related : S a b) : Simulates R cost S x (Pure.pure b : StateM τ β) := by
  intro room s t before
  obtain ⟨same, after⟩ := simulates room s t before
  exact ⟨same.symm ▸ related, after⟩

variable (less : ∀ room s t, R (room + 1) s t → R room s t)
include less

/-- A computation may be given more than it costs. -/
theorem mono (simulates : Simulates R cost S x y) (cheap : cost ≤ cost') :
    Simulates R cost' S x y := by
  obtain ⟨extra, rfl⟩ := Nat.exists_eq_add_of_le cheap
  intro room s t before
  refine simulates room s t ?_
  induction extra with
  | zero => exact before
  | succ extra ih => exact ih (by omega) (less _ s t before)

/-- A request of two parts costs what both cost, even if the first one fails. -/
theorem request {x : Toolkit.Request σ α} {y : Toolkit.Request τ α} {f : α → Toolkit.Request σ γ}
    {g : α → Toolkit.Request τ γ} (first : Simulates R cost SameAnswer x.run y.run)
    (next : ∀ a, Simulates R cost' SameAnswer (f a).run (g a).run) :
    Simulates R (cost + cost') SameAnswer (x >>= f).run (y >>= g).run := by
  rw [ExceptT.run_bind, ExceptT.run_bind]
  refine first.bind fun a b same => ?_
  obtain ⟨v, rfl, rfl⟩ | ⟨e, e', rfl, rfl⟩ := same.cases
  · exact next v
  · exact mono less (pure fun _ => ⟨nofun, nofun⟩) (Nat.zero_le _)

end Simulates

/-- Every request to one toolkit is a request to the other, and both know the same verbs. -/
structure Toolkit.Simulates {σ τ : Type} (R : Nat → σ → τ → Prop) (p : Toolkit σ) (q : Toolkit τ) :
    Prop where
  segment : ∀ identifier,
    AutoDoc.Simulates R 1 SameAnswer (p.segment identifier).run (q.segment identifier).run
  spellCorrect : ∀ words,
    AutoDoc.Simulates R 1 SameAnswer (p.spellCorrect words).run (q.spellCorrect words).run
  tag : ∀ phrase, AutoDoc.Simulates R 1 SameAnswer (p.tag phrase).run (q.tag phrase).run
  stem : ∀ words, AutoDoc.Simulates R 1 SameAnswer (p.stem words).run (q.stem words).run
  verbs : ∀ word, word ∈ p.knownVerbs ↔ word ∈ q.knownVerbs

namespace Docstring

variable {σ τ : Type} {R : Nat → σ → τ → Prop} (less : ∀ room s t, R (room + 1) s t → R room s t)
include less

section

variable {p : Toolkit σ} {q : Toolkit τ} (alike : p.Simulates R q)
include alike

theorem tagIdentifier_simulates (identifier : String) :
    Simulates R 3 SameAnswer (p.tagIdentifier identifier).run (q.tagIdentifier identifier).run :=
  .request less (alike.segment identifier) fun words =>
    .request less (alike.spellCorrect words) fun _ => alike.tag _

/-- Toolkits that simulate each other describe functions alike. -/
theorem functionSentence_simulates (name : String) :
    Simulates R 4 SameAnswer (functionSentence p name).run (functionSentence q name).run := by
  change Simulates R (3 + 1) SameAnswer _ _
  refine .request less (tagIdentifier_simulates less alike name) fun tokens => ?_
  cases tokens with
  | nil => exact .mono less (.pure fun _ => Iff.rfl) (Nat.zero_le 1)
  | cons first rest =>
    have known : p.knownVerbs.contains first.word = q.knownVerbs.contains first.word := by
      rw [Bool.eq_iff_iff, List.contains_iff_mem, List.contains_iff_mem, alike.verbs]
    dsimp only
    rw [known]
    split
    · exact .request less (alike.stem _) fun _ => .pure fun _ => Iff.rfl
    · exact .mono less (.pure fun _ => Iff.rfl) (Nat.zero_le 1)

end

variable {p : Option (Toolkit σ)} {q : Option (Toolkit τ)}
  (alike : Option.Rel (Toolkit.Simulates R) p q)
include alike

theorem describeClass_simulates (name : String) :
    Simulates R 4 Eq (describeClass p name) (describeClass q name) := by
  cases alike with
  | none => exact .mono less (.pure rfl) (Nat.zero_le 4)
  | some alike =>
    change Simulates R (3 + 1) Eq _ _
    refine (tagIdentifier_simulates less alike name).bind fun a b same => ?_
    obtain ⟨_ | ⟨token, tokens⟩, rfl, rfl⟩ | ⟨e, e', rfl, rfl⟩ := same.cases <;>
      exact .mono less (.pure rfl) (Nat.zero_le 1)

theorem describeFunction_simulates (name : String) :
    Simulates R 4 Eq (describeFunction p name) (describeFunction q name) := by
  cases alike with
  | none => exact .mono less (.pure rfl) (Nat.zero_le 4)
  | some alike =>
    change Simulates R (4 + 0) Eq _ _
    refine (functionSentence_simulates less alike name).bind fun a b same => ?_
    obtain ⟨_ | sentence, rfl, rfl⟩ | ⟨e, e', rfl, rfl⟩ := same.cases <;> exact .pure rfl

/-- So the openings of blocks are the same. -/
theorem opening_simulates (conventions : Conventions) (e : Element) :
    Simulates R 4 Eq (opening conventions p e) (opening conventions q e) := by
  unfold opening
  split
  · exact describeClass_simulates less alike e.name
  · cases specialSentence? e.name with
    | some sentence => exact .mono less (.pure rfl) (Nat.zero_le 4)
    | none =>
      change Simulates R (4 + 0) Eq (_ >>= _) (_ >>= _)
      refine (describeFunction_simulates less alike e.name).bind fun a b same => ?_
      rw [same]
      exact .pure rfl

theorem block_simulates (conventions : Conventions) (e : Element) :
    Simulates R 4 Eq (block conventions p e) (block conventions q e) := by
  change Simulates R (4 + 0) Eq _ _
  refine (opening_simulates less alike conventions e).bind fun a b same => ?_
  rw [same]
  exact .pure rfl

end Docstring

end AutoDoc
