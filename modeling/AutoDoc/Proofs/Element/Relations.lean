import AutoDoc.Element.Resolution
import Mathlib.Data.List.Forall2

/-!
# Relations that agree

Resolution looks for methods, constructors and exceptions in scans of their own. What they find
fits together: the methods of a class are the names of the functions it owns, each once and in the
order of first occurrence (`methodsOf_lists`), and its constructor is the first owned function with
the initializer's name, with its exceptions attached, so there is one just if that name is among the
methods (`constructorOf?_eq_some_iff`, `constructorOf?_isSome_iff`). The uses of exceptions follow
the nesting of ranges (`Element.Raises.sublist`). Nothing else changes (`resolve_consistent`).
-/

namespace AutoDoc

namespace Element

section

variable {seen names : List String} {name : String}

/-- The first occurrences are those of all names that were not seen before. -/
theorem mem_firstNames_iff : name ∈ firstNames seen names ↔ name ∈ names ∧ name ∉ seen := by
  induction names generalizing seen with
  | nil => simp [firstNames]
  | cons head rest ih =>
    unfold firstNames
    split
    next known =>
      have known : head ∈ seen := by simpa using known
      rw [ih, List.mem_cons]
      constructor
      · exact fun ⟨later, fresh⟩ => ⟨Or.inr later, fresh⟩
      · rintro ⟨rfl | later, fresh⟩
        · exact absurd known fresh
        · exact ⟨later, fresh⟩
    next unknown =>
      have unknown : head ∉ seen := by simpa using unknown
      rw [List.mem_cons, ih, List.mem_cons, List.mem_cons, not_or]
      by_cases same : name = head
      · subst same
        simp [unknown]
      · simp [same]

/-- First occurrences are listed in their order. -/
theorem firstNames_pairwise (seen names : List String) :
    (firstNames seen names).Pairwise fun a b => names.idxOf a < names.idxOf b := by
  -- Behind a name that has been seen, all that is listed differs from it and lies one further.
  have behind : ∀ {head : String} {rest seen : List String}, head ∈ seen →
      (firstNames seen rest).Pairwise (fun a b => rest.idxOf a < rest.idxOf b) →
      (firstNames seen rest).Pairwise
        fun a b => (head :: rest).idxOf a < (head :: rest).idxOf b := by
    intro head rest seen known ordered
    refine ordered.imp_of_mem fun {a b} inA inB before => ?_
    have differs : ∀ {x}, x ∈ firstNames seen rest → head ≠ x := by
      rintro x member rfl
      exact (mem_firstNames_iff.mp member).2 known
    rw [List.idxOf_cons_ne _ (differs inA), List.idxOf_cons_ne _ (differs inB)]
    exact Nat.succ_lt_succ before
  induction names generalizing seen with
  | nil => exact List.Pairwise.nil
  | cons head rest ih =>
    unfold firstNames
    split
    next known => exact behind (by simpa using known) (ih seen)
    next =>
      refine List.pairwise_cons.mpr ⟨fun x member => ?_, behind List.mem_cons_self (ih _)⟩
      have differs : head ≠ x := by
        rintro rfl
        exact (mem_firstNames_iff.mp member).2 List.mem_cons_self
      rw [List.idxOf_cons_self, List.idxOf_cons_ne _ differs]
      exact Nat.succ_pos _

end

def ownedNames (className : String) (functions : List Element) : List String :=
  (functions.filter fun f => f.owner == className).map (·.name)

/-- The methods of a class: the names of the functions it owns, each once, in the order in which
they occur first. -/
structure Lists (methods owned : List String) : Prop where
  nodup : methods.Nodup
  mem_iff : ∀ name, name ∈ methods ↔ name ∈ owned
  ordered : methods.Pairwise fun a b => owned.idxOf a < owned.idxOf b

/-- The methods of a class are the functions that name it as their owner, in their order and each
name once. -/
theorem methodsOf_lists (className : String) (functions : List Element) :
    Lists (methodsOf className functions) (ownedNames className functions) where
  nodup := (firstNames_pairwise _ _).imp fun before same => by
    rw [same] at before
    exact Nat.lt_irrefl _ before
  mem_iff name := by
    rw [methodsOf, mem_firstNames_iff, and_iff_left List.not_mem_nil]
    rfl
  ordered := firstNames_pairwise _ _

/-- The function initializes a class: the class owns it, under the initializer's name. -/
def Initializes (className initializer : String) (f : Element) : Prop :=
  f.owner = className ∧ f.name = initializer

section

variable {className initializer : String} {functions : List Element}

/-- The constructor is the first function that initializes the class. -/
theorem constructorOf?_eq_some_iff {f : Element} :
    constructorOf? className initializer functions = some f ↔
      ∃ before after, functions = before ++ f :: after ∧ f.Initializes className initializer ∧
        ∀ g ∈ before, ¬ g.Initializes className initializer := by
  have test : ∀ g : Element, (g.owner == className && g.name == initializer) = true ↔
      g.Initializes className initializer := by
    intro g
    rw [Bool.and_eq_true, beq_iff_eq, beq_iff_eq]
    rfl
  rw [constructorOf?, List.find?_eq_some_iff_append, test]
  simp only [Bool.not_eq_true', ← Bool.not_eq_true, test]
  constructor
  · exact fun ⟨here, before, after, split, first⟩ => ⟨before, after, split, here, first⟩
  · exact fun ⟨before, after, split, here, first⟩ => ⟨here, before, after, split, first⟩

/-- A class has a constructor just if the initializer's name is among its methods. -/
theorem constructorOf?_isSome_iff :
    (constructorOf? className initializer functions).isSome = true ↔
      initializer ∈ methodsOf className functions := by
  rw [(methodsOf_lists className functions).mem_iff, constructorOf?, List.find?_isSome, ownedNames,
    List.mem_map]
  constructor
  · rintro ⟨f, member, here⟩
    obtain ⟨owned, named⟩ := (Bool.and_eq_true _ _).mp here
    exact ⟨f, List.mem_filter.mpr ⟨member, owned⟩, beq_iff_eq.mp named⟩
  · rintro ⟨f, member, named⟩
    obtain ⟨member, owned⟩ := List.mem_filter.mp member
    exact ⟨f, member, (Bool.and_eq_true _ _).mpr ⟨owned, beq_iff_eq.mpr named⟩⟩

end

/-- What a class has from the functions of its source: its methods, and as its constructor the first
of them that initializes it, if one does. -/
structure Owns (initializer : String) (functions : List Element) (c : Element) : Prop where
  methods : Lists c.methods (ownedNames c.name functions)
  constructor_isSome_iff : c.constructor.isSome = true ↔ initializer ∈ c.methods
  constructor_eq_some_iff : ∀ f, c.constructor = some f ↔
    ∃ before after, functions = before ++ f :: after ∧ f.Initializes c.name initializer ∧
      ∀ g ∈ before, ¬ g.Initializes c.name initializer

/-- What a function has from the uses of exceptions in its source: those that start below its first
line and end above its last one. -/
def Raises (uses : List ExceptionUse) (f : Element) : Prop :=
  f.exceptions = uses.filter fun u => decide (f.startLine < u.startLine ∧ u.endLine < f.endLine)

theorem raises_exceptionsWithin (f : Element) (uses : List ExceptionUse) :
    Raises uses { f with exceptions := f.exceptionsWithin uses } :=
  List.filter_congr fun u _ => by simp [ExceptionUse.isStrictlyWithin]

/-- A function within the range of another one has no exceptions that the other lacks. -/
theorem Raises.sublist {uses : List ExceptionUse} {f g : Element} (inner : Raises uses f)
    (outer : Raises uses g) (starts : g.startLine ≤ f.startLine) (ends : f.endLine ≤ g.endLine) :
    f.exceptions.Sublist g.exceptions := by
  rw [inner, outer]
  refine List.monotone_filter_right uses fun u within => ?_
  obtain ⟨below, above⟩ := of_decide_eq_true within
  exact decide_eq_true ⟨UInt32.lt_of_le_of_lt starts below, UInt32.lt_of_lt_of_le above ends⟩

end Element

open Element

/-- Resolution keeps the lists as they are, but for methods and constructors of classes and for
exceptions of functions. With these, every class fits the resolved functions, every function fits
the uses of exceptions, and of two functions one within the other has no more exceptions. -/
theorem Elements.resolve_consistent (conventions : Conventions) (es : Elements) :
    let resolved := es.resolve conventions
    List.Forall₂ (fun c r => r = { c with methods := r.methods, constructor := r.constructor })
        es.classes resolved.classes ∧
      List.Forall₂ (fun f r => r = { f with exceptions := r.exceptions })
        es.functions resolved.functions ∧
      resolved.exceptions = es.exceptions ∧
      (∀ c ∈ resolved.classes, c.Owns conventions.initializer resolved.functions) ∧
      (∀ f ∈ resolved.functions, f.Raises es.exceptions) ∧
      ∀ f ∈ resolved.functions, ∀ g ∈ resolved.functions, g.startLine ≤ f.startLine →
        f.endLine ≤ g.endLine → f.exceptions.Sublist g.exceptions := by
  intro resolved
  have raises : ∀ f ∈ resolved.functions, f.Raises es.exceptions := by
    intro f member
    obtain ⟨plain, _, rfl⟩ := List.mem_map.mp member
    exact raises_exceptionsWithin plain es.exceptions
  refine ⟨?_, ?_, rfl, ?_, raises, ?_⟩
  · exact List.forall₂_map_right_iff.mpr (List.forall₂_same.mpr fun _ _ => rfl)
  · exact List.forall₂_map_right_iff.mpr (List.forall₂_same.mpr fun _ _ => rfl)
  · intro c member
    obtain ⟨plain, _, rfl⟩ := List.mem_map.mp member
    exact ⟨methodsOf_lists _ _, constructorOf?_isSome_iff, fun _ => constructorOf?_eq_some_iff⟩
  · exact fun f inner g outer => (raises f inner).sublist (raises g outer)

/-- A class that is defined twice, with an initializer that is defined again in the second
definition, and a function within a method. -/
theorem Elements.resolve_consistent_redefined :
    let function (owner name : String) (startLine endLine : UInt32) : Element :=
      { name, owner, startLine, endLine, kind := if owner = "" then .function else .method
        totalLines := endLine - startLine + 1, linesOfCode := endLine - startLine + 1 }
    let ball (startLine endLine : UInt32) : Element :=
      { name := "Ball", startLine, endLine, kind := .classDef
        totalLines := endLine - startLine + 1, linesOfCode := endLine - startLine + 1 }
    let es : Elements := {
      classes := [ball 1 16, ball 18 24]
      functions := [function "Ball" "__init__" 2 5, function "Ball" "bounce" 6 16,
        function "" "again" 8 12, function "Ball" "__init__" 19 24]
      exceptions := [⟨"TypeError", none, 3, 4⟩, ⟨"KeyError", none, 8, 8⟩,
        ⟨"OSError", none, 10, 11⟩] }
    let resolved := es.resolve {}
    (∃ c ∈ resolved.classes, c.Owns "__init__" resolved.functions ∧ c.startLine = 18 ∧
      c.methods = ["__init__", "bounce"] ∧
      c.constructor.map (fun f => (f.startLine, f.exceptions.map (·.name))) =
        some (2, ["TypeError"])) ∧
    ∃ inner ∈ resolved.functions, ∃ outer ∈ resolved.functions,
      inner.Raises es.exceptions ∧ outer.Raises es.exceptions ∧
      inner.exceptions.map (·.name) = ["OSError"] ∧
      outer.exceptions.map (·.name) = ["KeyError", "OSError"] ∧
      inner.exceptions.Sublist outer.exceptions := by
  intro function ball es resolved
  obtain ⟨_, _, _, owns, raises, nested⟩ := Elements.resolve_consistent {} es
  have second : resolved.classes[1] ∈ resolved.classes := List.getElem_mem _
  have inner : resolved.functions[2] ∈ resolved.functions := List.getElem_mem _
  have outer : resolved.functions[1] ∈ resolved.functions := List.getElem_mem _
  refine ⟨⟨_, second, owns _ second, by decide, by decide, by decide⟩, _, inner, _, outer,
    raises _ inner, raises _ outer, by decide, by decide,
    nested _ inner _ outer (by decide) (by decide)⟩

end AutoDoc
