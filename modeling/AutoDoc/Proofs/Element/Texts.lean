import AutoDoc.Proofs.Element.Pending
import AutoDoc.Proofs.Element.Relations
import AutoDoc.Proofs.Outline.Pieces

/-!
# What elements are made of

The texts of an element are those of its entry with white space trimmed, and after resolution also
those of the functions and exceptions that belong to it. So a property that passes from a text to
its stretches passes from an outline to its elements (`considered_texts`).
-/

namespace AutoDoc

section

variable (P : String → Prop)

structure Parameter.Texts (p : Parameter) : Prop where
  name : P p.name
  hint : ∀ h ∈ p.typeHint, P h
  default : ∀ d ∈ p.default, P d

structure ExceptionUse.Texts (u : ExceptionUse) : Prop where
  name : P u.name
  localName : ∀ n ∈ u.localName, P n

/-- The texts of an element that its block shows, but for documentation. -/
structure Element.Texts (e : Element) : Prop where
  name : P e.name
  owner : P e.owner
  parameters : ∀ p ∈ e.parameters, p.Texts P
  returns : ∀ r ∈ e.returns, P r
  bases : ∀ base ∈ e.inheritance, P base
  methods : ∀ name ∈ e.methods, P name
  attributes : ∀ name ∈ e.classVariables, P name
  exceptions : ∀ u ∈ e.exceptions, u.Texts P

variable [DecidablePred P]

instance (p : Parameter) : Decidable (p.Texts P) :=
  decidable_of_iff (_ ∧ _ ∧ _) ⟨fun ⟨a, b, c⟩ => ⟨a, b, c⟩, fun ⟨a, b, c⟩ => ⟨a, b, c⟩⟩

instance (u : ExceptionUse) : Decidable (u.Texts P) :=
  decidable_of_iff (_ ∧ _) ⟨fun ⟨a, b⟩ => ⟨a, b⟩, fun ⟨a, b⟩ => ⟨a, b⟩⟩

instance (e : Element) : Decidable (e.Texts P) :=
  decidable_of_iff (_ ∧ _ ∧ _ ∧ _ ∧ _ ∧ _ ∧ _ ∧ _)
    ⟨fun ⟨a, b, c, d, e, f, g, h⟩ => ⟨a, b, c, d, e, f, g, h⟩,
      fun ⟨a, b, c, d, e, f, g, h⟩ => ⟨a, b, c, d, e, f, g, h⟩⟩

end

section

variable {P : String → Prop} (stretch : ∀ {part whole : String},
  part.toList <:+: whole.toList → P whole → P part)

include stretch

theorem Extraction.nonBlank?_texts {s : Option String} (texts : ∀ t ∈ s, P t) :
    ∀ t ∈ nonBlank? s, P t := by
  intro t member
  obtain ⟨raw, given, _, rfl⟩ := nonBlank?_eq_some_iff.mp member
  exact stretch (Text.trim_within raw) (texts raw given)

theorem Extraction.variableNames_texts {vs : Option (List Outline.Variable)}
    (texts : ∀ given ∈ vs, ∀ v ∈ given, ∀ n ∈ v.name, P n) : ∀ name ∈ variableNames vs, P name := by
  intro name member
  obtain ⟨v, inVariables, named⟩ := List.mem_filterMap.mp member
  cases vs with
  | none => cases inVariables
  | some given => exact nonBlank?_texts stretch (texts given rfl v inVariables) name named

namespace Outline

open Extraction

theorem Parameter.Yields.texts {p : Outline.Parameter} {q : AutoDoc.Parameter} (yields : p.Yields q)
    (texts : p.Texts P) : q.Texts P where
  name := nonBlank?_texts stretch texts.name _ yields.name
  hint := by
    rw [yields.typeHint]
    exact nonBlank?_texts stretch texts.hint
  default := by
    rw [yields.default]
    exact texts.default

theorem Class.Yields.texts (empty : P "") {c : Class} {e : Element} (yields : c.Yields e)
    (texts : c.Texts P) : e.Texts P := by
  have name := nonBlank?_texts stretch texts.name _ yields.name
  rw [yields.parts]
  refine ⟨name, empty, List.forall_mem_nil _, nofun, fun base member => ?_, List.forall_mem_nil _,
    variableNames_texts stretch texts.attributes, List.forall_mem_nil _⟩
  have member := (List.mem_filter.mp member).1
  cases given : c.inheritance with
  | none => simp [given] at member
  | some bases => exact texts.bases bases given base (by simpa [given] using member)

theorem Function.Yields.texts (empty : P "") {f : Function} {e : Element} (yields : f.Yields e)
    (texts : f.Texts P) : e.Texts P := by
  have name := nonBlank?_texts stretch texts.name _ yields.name
  have parameters : ∀ q ∈ e.parameters, q.Texts P := by
    intro q member
    obtain ⟨p, named, yield⟩ := exists_left_of_mem yields.parameters member
    have member := (List.mem_filter.mp named).1
    cases given : f.parameters with
    | none => simp [given] at member
    | some ps =>
      exact yield.texts stretch (texts.parameters ps given p (by simpa [given] using member))
  rw [yields.parts]
  refine ⟨name, ?_, parameters, nonBlank?_texts stretch texts.returns, List.forall_mem_nil _,
    List.forall_mem_nil _, List.forall_mem_nil _, List.forall_mem_nil _⟩
  cases given : f.owner with
  | none => exact stretch List.nil_infix empty
  | some owner => exact stretch (Text.trim_within owner) (texts.owner owner given)

theorem Exception.Yields.texts {x : Exception} {u : ExceptionUse} (yields : x.Yields u)
    (texts : x.Texts P) : u.Texts P where
  name := nonBlank?_texts stretch texts.name _ yields.name
  localName := by
    rw [yields.localName]
    exact nonBlank?_texts stretch texts.localName

end Outline

end

namespace Outline

variable {o : Outline} {extraction : Extraction} {conventions : Conventions}

/-- The elements of an outline have the properties of its texts; the constructor of a class is one
of the functions. -/
theorem considered_texts {P : String → Prop} (stretch : ∀ {part whole : String},
      part.toList <:+: whole.toList → P whole → P part) (empty : P "") (texts : o.Texts P)
    (extracted : o.extract = .ok extraction) :
    ∀ e ∈ considered conventions extraction, e.Texts P ∧ ∀ c ∈ e.constructor,
      c ∈ (extraction.elements.resolve conventions).functions := by
  have yields := Outline.yields_of_extract extracted
  have ofClasses : ∀ e ∈ extraction.elements.classes, e.Texts P := by
    intro e member
    obtain ⟨c, usable, yield⟩ := Extraction.exists_left_of_mem yields.classes member
    exact yield.texts stretch empty (texts.classes c (List.mem_filter.mp usable).1)
  have ofFunctions : ∀ e ∈ extraction.elements.functions, e.Texts P ∧ e.constructor = none := by
    intro e member
    obtain ⟨f, usable, yield⟩ := Extraction.exists_left_of_mem yields.functions member
    exact ⟨yield.texts stretch empty (texts.functions f (List.mem_filter.mp usable).1),
      congrArg Element.constructor yield.parts⟩
  have ofExceptions : ∀ u ∈ extraction.elements.exceptions, u.Texts P := by
    intro u member
    obtain ⟨x, usable, yield⟩ := Extraction.exists_left_of_mem yields.exceptions member
    exact yield.texts stretch (texts.exceptions x (List.mem_filter.mp usable).1)
  intro e member
  rcases List.mem_append.mp member with isClass | isFunction
  · obtain ⟨c, kept, rfl⟩ := List.mem_map.mp isClass
    have own := ofClasses c kept
    refine ⟨⟨own.name, own.owner, own.parameters, own.returns, own.bases, ?_, own.attributes,
      own.exceptions⟩, ?_⟩
    · intro name inMethods
      obtain ⟨f, owned, rfl⟩ := List.mem_map.mp
        (Element.mem_firstNames_iff.mp inMethods).1
      obtain ⟨g, inKept, rfl⟩ := List.mem_map.mp (List.mem_filter.mp owned).1
      exact (ofFunctions g inKept).1.name
    · intro f found
      exact List.mem_of_find?_eq_some found
  · obtain ⟨f, kept, rfl⟩ := List.mem_map.mp isFunction
    obtain ⟨own, plain⟩ := ofFunctions f kept
    refine ⟨⟨own.name, own.owner, own.parameters, own.returns, own.bases, own.methods,
      own.attributes, ?_⟩, ?_⟩
    · intro u within
      exact ofExceptions u (List.mem_filter.mp within).1
    · intro c built
      dsimp only at built
      rw [plain] at built
      cases built

end Outline

end AutoDoc
