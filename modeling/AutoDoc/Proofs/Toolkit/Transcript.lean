import AutoDoc.Proofs.Toolkit.Simulation

/-!
# Transcripts of calls

A toolkit can be made to note the calls made to it, each with what it came to, without any change
to its answers (`noting_simulates`). The notes say which calls a description has made. A call that
fails, or that tags no token, leaves a description nothing to say: when a request for a sentence has
come to one, no call was of that kind (`tagIdentifier_told`, `functionSentence_told`).
-/

namespace AutoDoc

/-- A request to a toolkit with its argument. -/
inductive Toolkit.Call where
  | segment (identifier : String)
  | spellCorrect (words : List String)
  | tag (phrase : String)
  | stem (words : List String)
deriving DecidableEq, Repr

/-- What a request is answered with. -/
inductive Toolkit.Answer where
  | words (ws : List String)
  | tokens (ts : List Token)
deriving DecidableEq, Repr

namespace Toolkit

/-- A call and what it came to. -/
abbrev Exchange := Call × Except ToolkitError Answer

def noted {σ α : Type} (call : Call) (answer : α → Answer) (request : Request σ α) :
    Request (σ × List Exchange) α :=
  ExceptT.mk fun (state, notes) =>
    let (result, after) := request.run.run state
    (result, after, notes ++ [(call, result.map answer)])

theorem run_noted {σ α : Type} (call : Call) (answer : α → Answer) (request : Request σ α)
    (s : σ × List Exchange) : (noted call answer request).run.run s =
      ((request.run.run s.1).1, (request.run.run s.1).2,
        s.2 ++ [(call, (request.run.run s.1).1.map answer)]) := rfl

/-- The toolkit, with notes of the calls made to it. -/
def noting {σ : Type} (t : Toolkit σ) : Toolkit (σ × List Exchange) where
  segment identifier := noted (.segment identifier) .words (t.segment identifier)
  spellCorrect words := noted (.spellCorrect words) .words (t.spellCorrect words)
  tag phrase := noted (.tag phrase) .tokens (t.tag phrase)
  stem words := noted (.stem words) .words (t.stem words)
  knownVerbs := t.knownVerbs

/-- The call has left nothing to say: it failed, or it tagged no token. -/
def Exchange.Silent (exchange : Exchange) : Prop :=
  (∃ failure, exchange.2 = .error failure) ∨ exchange.2 = .ok (.tokens [])

/-- Every call noted since has left something to say. -/
def Told (before after : List Exchange) : Prop :=
  ∃ made, after = before ++ made ∧ ∀ exchange ∈ made, ¬ exchange.Silent

variable {σ α β : Type}

theorem Told.refl (notes : List Exchange) : Told notes notes :=
  ⟨[], (List.append_nil notes).symm, fun _ member => absurd member List.not_mem_nil⟩

theorem Told.trans {a b c : List Exchange} (first : Told a b) (second : Told b c) : Told a c := by
  obtain ⟨made, rfl, told⟩ := first
  obtain ⟨later, rfl, toldLater⟩ := second
  refine ⟨made ++ later, List.append_assoc _ _ _, fun exchange member => ?_⟩
  rcases List.mem_append.mp member with early | late
  · exact told exchange early
  · exact toldLater exchange late

/-- Taking notes changes no answer. -/
theorem noting_simulates (t : Toolkit σ) :
    t.noting.Simulates (fun _ s state => s.1 = state) t := by
  have request : ∀ {α : Type} (call : Call) (answer : α → Answer) (r : Request σ α),
      AutoDoc.Simulates (fun _ (s : σ × List Exchange) state => s.1 = state) 1 SameAnswer
        (noted call answer r).run r.run := by
    rintro α call answer r room s _ rfl
    rw [run_noted]
    exact ⟨fun _ => Iff.rfl, rfl⟩
  exact ⟨fun _ => request _ _ _, fun _ => request _ _ _, fun _ => request _ _ _,
    fun _ => request _ _ _, fun _ => Iff.rfl⟩

/-- A request made of two has an answer if both have one. -/
theorem answers_of_bind {x : Request σ α} {f : α → Request σ β} {s s' : σ} {b : β}
    (done : (x >>= f).run.run s = (.ok b, s')) :
    ∃ a between, x.run.run s = (.ok a, between) ∧ (f a).run.run between = (.ok b, s') := by
  rw [ExceptT.run_bind, StateT.run_bind] at done
  rcases first : x.run.run s with ⟨failure | a, between⟩
  · rw [first] at done
    cases done
  · rw [first] at done
    exact ⟨a, between, rfl, done⟩

variable {s s' : σ × List Exchange}

/-- An answered request has noted its answer. -/
theorem told_of_noted {call : Call} {answer : α → Answer} {request : Request σ α} {a : α}
    (done : (noted call answer request).run.run s = (.ok a, s'))
    (tells : answer a ≠ .tokens []) : Told s.2 s'.2 := by
  rw [run_noted] at done
  obtain ⟨answered, rfl⟩ := Prod.mk.inj done
  rw [answered]
  refine ⟨_, rfl, fun exchange member => ?_⟩
  rw [List.mem_singleton.mp member]
  rintro (⟨failure, failed⟩ | silent)
  · cases failed
  · exact tells (Except.ok.inj silent)

variable {t : Toolkit σ} {name : String}

theorem tagIdentifier_told {token : Token} {tokens : List Token}
    (done : (t.noting.tagIdentifier name).run.run s = (.ok (token :: tokens), s')) :
    Told s.2 s'.2 := by
  obtain ⟨words, segmented, first, done⟩ := answers_of_bind done
  obtain ⟨corrected, spelled, second, third⟩ := answers_of_bind done
  exact ((told_of_noted first nofun).trans (told_of_noted second nofun)).trans
    (told_of_noted third nofun)

end Toolkit

namespace Docstring

open Toolkit

variable {σ : Type} {s s' : σ × List Exchange} {t : Toolkit σ} {name : String}

/-- If a sentence was found for a function, every call made for it has left something to say. -/
theorem functionSentence_told {sentence : String}
    (done : (functionSentence t.noting name).run.run s = (.ok (some sentence), s')) :
    Told s.2 s'.2 := by
  obtain ⟨tokens, tagged, first, done⟩ := answers_of_bind done
  cases tokens with
  | nil => cases done
  | cons token tokens =>
    have before := tagIdentifier_told first
    dsimp only at done
    split at done
    next =>
      obtain ⟨stems, stemmed, second, done⟩ := answers_of_bind done
      cases done
      exact before.trans (told_of_noted second nofun)
    next =>
      cases done
      exact before

/-- A class is described by what the calls have told, or not at all. -/
theorem describeClass_told (t : Toolkit σ) (name : String) (s : σ × List Exchange) :
    ((describeClass (some t.noting) name).run s).1 = classPlaceholder ∨
      Told s.2 ((describeClass (some t.noting) name).run s).2.2 := by
  unfold describeClass
  rw [StateT.run_bind]
  rcases ran : (t.noting.tagIdentifier name).run.run s with ⟨_ | _ | ⟨token, tokens⟩, after⟩
  · exact Or.inl rfl
  · exact Or.inl rfl
  · exact Or.inr (tagIdentifier_told ran)

/-- A function is described by what the calls have told, or not at all. -/
theorem describeFunction_told (t : Toolkit σ) (name : String) (s : σ × List Exchange) :
    ((describeFunction (some t.noting) name).run s).1 = functionPlaceholder ∨
      Told s.2 ((describeFunction (some t.noting) name).run s).2.2 := by
  unfold describeFunction
  rw [StateT.run_bind]
  rcases ran : (functionSentence t.noting name).run.run s with ⟨_ | _ | sentence, after⟩
  · exact Or.inl rfl
  · exact Or.inl rfl
  · exact Or.inr (functionSentence_told ran)

end Docstring

end AutoDoc
