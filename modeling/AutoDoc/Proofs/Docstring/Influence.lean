import AutoDoc.Proofs.Docstring.Plain
import AutoDoc.Proofs.Toolkit.Transcript
import AutoDoc.Toolkit.Table

/-!
# What a toolkit can change

The block of an element depends on a toolkit in its opening line only, and for a function not in the
sentences around the description there. Where a call that was made for the block fails or tags no
token, the block is the one that comes without a toolkit (`block_influence`).
-/

namespace AutoDoc.Docstring

open Toolkit

variable {σ : Type} {conventions : Conventions} {e : Element}

/-- The calls made for the block of an element, each with what it came to. -/
def callsFor (conventions : Conventions) (t : Toolkit σ) (e : Element) (state : σ) :
    List Exchange :=
  ((block conventions (some t.noting) e).run (state, [])).2.2

def functionOpening (conventions : Conventions) (e : Element) (description : String) : String :=
  String.intercalate " "
    ((verbSentence? e.name).toList ++ [description, scopeSentence conventions e])

theorem plainOpening_of_function (isFunction : e.isClass = false) :
    plainOpening conventions e =
      functionOpening conventions e ((specialSentence? e.name).getD functionPlaceholder) := by
  rw [plainOpening, isFunction, if_neg Bool.false_ne_true, functionOpening]

/-- A special method has its sentence whatever a toolkit says. -/
theorem opening_of_special {sentence : String} (isFunction : e.isClass = false)
    (special : specialSentence? e.name = some sentence) (toolkit : Option (Toolkit σ)) :
    opening conventions toolkit e =
      (pure (functionOpening conventions e sentence) : StateM σ String) := by
  unfold opening
  rw [isFunction, special]
  rfl

/-- Any other function is described between the sentence of its verb and its scope. -/
theorem opening_of_ordinary (isFunction : e.isClass = false)
    (ordinary : specialSentence? e.name = none) (toolkit : Option (Toolkit σ)) :
    opening conventions toolkit e =
      functionOpening conventions e <$> describeFunction toolkit e.name := by
  unfold opening
  rw [isFunction, ordinary]
  rfl

theorem run_pure {α : Type} (a : α) (state : σ) : ((pure a : StateM σ α).run state).1 = a := rfl

theorem run_map {α β : Type} (f : α → β) (x : StateM σ α) (state : σ) :
    (f <$> x).run state = (f (x.run state).1, (x.run state).2) := rfl

/-- Whatever a toolkit says, it says it between the sentence of a function's verb and its scope. -/
theorem opening_of_function (isFunction : e.isClass = false) (toolkit : Option (Toolkit σ))
    (state : σ) :
    ∃ description, ((opening conventions toolkit e).run state).1 =
      functionOpening conventions e description := by
  cases special : specialSentence? e.name with
  | some sentence => exact ⟨sentence, by rw [opening_of_special isFunction special, run_pure]⟩
  | none => exact ⟨_, by rw [opening_of_ordinary isFunction special, run_map]⟩

/-- The opening is built from calls that told something, or is the one without a toolkit. -/
theorem opening_told (t : Toolkit σ) (s : σ × List Exchange) :
    ((opening conventions (some t.noting) e).run s).1 = plainOpening conventions e ∨
      Told s.2 ((opening conventions (some t.noting) e).run s).2.2 := by
  cases kind : e.isClass with
  | true =>
    unfold opening plainOpening
    rw [kind]
    exact describeClass_told t e.name s
  | false =>
    rw [plainOpening_of_function kind]
    cases special : specialSentence? e.name with
    | some sentence =>
      rw [opening_of_special kind special, run_pure, Option.getD_some]
      exact Or.inl rfl
    | none =>
      rw [opening_of_ordinary kind special, run_map, Option.getD_none]
      rcases describeFunction_told t e.name s with plain | told
      · exact Or.inl (by rw [plain])
      · exact Or.inr told

/-- No verb starts another one. -/
theorem verbSentences_apart : ∀ pair ∈ verbSentences, ∀ other ∈ verbSentences,
    pair.1.toList <+: other.1.toList → pair = other := by
  decide

/-- No verb of the table leads another, so the first entry that leads a name is the only one. -/
theorem verbSentence?_of_prefix {pair : String × String} (member : pair ∈ verbSentences)
    {name : String} (leads : pair.1.toList <+: (Text.lower name).toList) :
    verbSentence? name = some pair.2 := by
  unfold verbSentence?
  cases found : verbSentences.find? fun s => s.1.toList.isPrefixOf (Text.lower name).toList with
  | none =>
    have missed := List.find?_eq_none.mp found pair member
    exact absurd (List.isPrefixOf_iff_prefix.mpr leads) missed
  | some other =>
    have here := List.mem_of_find?_eq_some found
    have leadsToo : other.1.toList <+: (Text.lower name).toList := by
      simpa using List.find?_some found
    rcases List.prefix_or_prefix_of_prefix leads leadsToo with starts | starts
    · rw [verbSentences_apart pair member other here starts]
      rfl
    · rw [verbSentences_apart other here pair member starts]
      rfl

theorem specialSentence?_isSome {name : String}
    (special : Text.lower name ∈ specialSentences.map (·.1)) :
    ∃ sentence, specialSentence? name = some sentence := by
  obtain ⟨pair, member, same⟩ := List.mem_map.mp special
  refine Option.isSome_iff_exists.mp ?_
  rw [specialSentence?, Option.isSome_map, List.find?_isSome]
  exact ⟨pair, member, beq_iff_eq.mpr same⟩

/-- The sentence of a function's verb starts its opening. -/
theorem verb_starts_opening {pair : String × String} (member : pair ∈ verbSentences)
    (leads : pair.1.toList <+: (Text.lower e.name).toList) (description : String) :
    pair.2.toList <+: (functionOpening conventions e description).toList := by
  rw [functionOpening, verbSentence?_of_prefix member leads]
  simp only [Option.toList_some, List.singleton_append]
  rw [String.intercalate_cons_cons, String.toList_append, String.toList_append, List.append_assoc]
  exact List.prefix_append _ _

theorem intercalate_ends (separator last : String) (front : List String) :
    last.toList <:+ (String.intercalate separator (front ++ [last])).toList := by
  induction front with
  | nil => simp
  | cons first rest ih =>
    have joined : String.intercalate separator (first :: rest ++ [last]) =
        first ++ separator ++ String.intercalate separator (rest ++ [last]) :=
      String.intercalate_cons_of_ne_nil (by simp)
    rw [joined, String.toList_append]
    exact ih.trans (List.suffix_append _ _)

/-- The sentence on where a function belongs ends its opening. -/
theorem scope_ends_opening (description : String) :
    (scopeSentence conventions e).toList <:+
      (functionOpening conventions e description).toList := by
  have parts : (verbSentence? e.name).toList ++ [description, scopeSentence conventions e] =
      ((verbSentence? e.name).toList ++ [description]) ++ [scopeSentence conventions e] := by simp
  rw [functionOpening, parts]
  exact intercalate_ends _ _ _

/-- The opening is the second entry of a block, and what stands around it comes from the element. -/
theorem block_run (toolkit : Option (Toolkit σ)) (state : σ) :
    ((block conventions toolkit e).run state).1 =
      indented e.bodyDepth delimiter ::
        indented e.bodyDepth ((opening conventions toolkit e).run state).1 ::
          (plainSections conventions e ++ [indented e.bodyDepth delimiter]) := rfl

/-- The opening is the same when the calls are noted. -/
theorem opening_noting (conventions : Conventions) (t : Toolkit σ) (e : Element) (state : σ) :
    ((opening conventions (some t.noting) e).run (state, [])).1 =
      ((opening conventions (some t) e).run state).1 :=
  (opening_simulates (fun _ _ _ same => same) (.some t.noting_simulates) conventions e 0
    (state, []) state rfl).1

/-- Where a call has left nothing to say, or for a special method, the opening is the one without a
toolkit. -/
theorem opening_unchanged {t : Toolkit σ} {state : σ}
    (mute : (∃ exchange ∈ callsFor conventions t e state, exchange.Silent) ∨
      (e.isClass = false ∧ Text.lower e.name ∈ specialSentences.map (·.1))) :
    ((opening conventions (some t) e).run state).1 = plainOpening conventions e := by
  rcases mute with ⟨exchange, noted, silent⟩ | ⟨isFunction, special⟩
  · rw [← opening_noting]
    rcases opening_told t (state, []) with plain | ⟨made, notes, told⟩
    · exact plain
    · rw [List.nil_append] at notes
      exact absurd silent (told exchange (notes ▸ noted))
  · obtain ⟨sentence, special⟩ := specialSentence?_isSome special
    rw [opening_of_special isFunction special, run_pure, plainOpening_of_function isFunction,
      special, Option.getD_some]

/-- A toolkit has an influence on the opening line of a block only: entry 1. It has none where a
call made for the block fails or tags no token, nor for a special method. For a function that entry,
behind its indentation, starts with the sentence of its verb if it has one and ends with the one on
where it belongs, with any toolkit and without one. -/
theorem block_influence (conventions : Conventions) (t : Toolkit σ) (e : Element) (state : σ) :
    let described := ((block conventions (some t) e).run state).1
    let plain := ((block conventions (none : Option (Toolkit σ)) e).run state).1
    let calls := callsFor conventions t e state
    described.length = plain.length ∧
      (∀ i, i ≠ 1 → described[i]? = plain[i]?) ∧
      ((∃ call failure, (call, .error failure) ∈ calls) ∨
          (∃ phrase, (.tag phrase, .ok (.tokens [])) ∈ calls) ∨
          (e.isClass = false ∧ Text.lower e.name ∈ specialSentences.map (·.1)) →
        described = plain) ∧
      (e.isClass = false → ∀ toolkit : Option (Toolkit σ), ∃ line,
        ((block conventions toolkit e).run state).1[1]? = some (indented e.bodyDepth line) ∧
        (∀ pair ∈ verbSentences, pair.1.toList <+: (Text.lower e.name).toList →
          pair.2.toList <+: line.toList) ∧
        (scopeSentence conventions e).toList <:+ line.toList) := by
  intro described plain calls
  refine ⟨?_, ?_, ?_, ?_⟩
  · simp only [described, plain, block_run, List.length_cons]
  · intro i other
    simp only [described, plain, block_run]
    match i with
    | 0 => rw [List.getElem?_cons_zero, List.getElem?_cons_zero]
    | 1 => exact absurd rfl other
    | i + 2 => simp only [List.getElem?_cons_succ]
  · intro mute
    simp only [described, plain, block_run]
    have same : ((opening conventions (some t) e).run state).1 = plainOpening conventions e := by
      apply opening_unchanged
      rcases mute with ⟨call, failure, noted⟩ | ⟨phrase, noted⟩ | special
      · exact Or.inl ⟨_, noted, Or.inl ⟨failure, rfl⟩⟩
      · exact Or.inl ⟨_, noted, Or.inr rfl⟩
      · exact Or.inr special
    rw [same, opening_none, run_pure]
  · intro isFunction toolkit
    obtain ⟨description, opens⟩ := opening_of_function isFunction toolkit state
    refine ⟨functionOpening conventions e description, ?_, ?_, scope_ends_opening description⟩
    · rw [block_run, opens]
      rfl
    · exact fun pair member leads => verb_starts_opening member leads description

/-- The stem of a getter's verb cannot be found; of what was tagged nothing is said. -/
theorem block_influence_failing_stem :
    let t : Toolkit Unit :=
      ({ tags := [("get", "VERB", "ROOT")], failing := [.stem] } : TableToolkit).toolkit
    let e : Element := {
      name := "getName", kind := .method, startLine := 2, endLine := 3, owner := "Ball",
      parameters := [{ name := "self" }], totalLines := 2, linesOfCode := 2 }
    let calls : List Exchange := [
      (.segment "getName", .ok (.words ["get", "name"])),
      (.spellCorrect ["get", "name"], .ok (.words ["get", "name"])),
      (.tag "get name", .ok (.tokens [⟨"get", "VERB", "ROOT"⟩, ⟨"name", "X", "dep"⟩])),
      (.stem ["get"], .error (.requestFailed "stem" "toolkit offline"))]
    e.isClass = false ∧ callsFor {} t e () = calls ∧
      ((block {} (some t) e).run ()).1 = ((block {} (none : Option (Toolkit Unit)) e).run ()).1 ∧
      ∃ line, ((block {} (some t) e).run ()).1[1]? = some (indented e.bodyDepth line) ∧
        "This is a getter method.".toList <+: line.toList ∧
        "It is a class method of Ball.".toList <:+ line.toList := by
  intro t e calls
  have made : callsFor {} t e () = calls := by decide
  obtain ⟨_, _, unchanged, function⟩ := block_influence {} t e ()
  have failed : (.stem ["get"], .error (.requestFailed "stem" "toolkit offline")) ∈
      callsFor {} t e () := by
    rw [made]
    decide
  obtain ⟨line, second, verb, scope⟩ := function rfl (some t)
  have getter : "get".toList <+: (Text.lower e.name).toList := by decide
  exact ⟨rfl, made, unchanged (Or.inl ⟨_, _, failed⟩), line, second,
    verb ("get", "This is a getter method.") (by decide) getter, scope⟩

end AutoDoc.Docstring
