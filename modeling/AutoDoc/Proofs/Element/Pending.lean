import AutoDoc.Proofs.Element.Extraction
import AutoDoc.Proofs.Element.Precedence
import AutoDoc.Proofs.Outline.Headers

/-!
# Elements to document

Which definitions of an outline are to be documented: those that are usable and lack documentation,
one for each start line.

* `extract_ok` — extraction comes to an end unless a range has all of the 2^32 lines;
* `toDocument_given` — every element to document comes from a definition without documentation;
* `exists_toDocument` — and a usable definition without documentation is to be documented if no
  other one starts on its line.
-/

namespace AutoDoc

open Outline

namespace Outline.Definition

/-- A definition that extraction keeps. -/
def Usable (d : Definition) : Prop :=
  d.isNamed = true ∧ ∃ startLine endLine, d.startLine = some startLine ∧
    d.endLine = some endLine ∧ ¬ endLine < startLine

/-- The element has the lines and the documentation of the definition. -/
structure Gives (d : Definition) (e : Element) : Prop where
  named : d.isNamed = true
  startLine : d.startLine = some e.startLine
  endLine : d.endLine = some e.endLine
  documentation : e.documentation = d.documentation.getD ""

theorem Gives.isDocumented {d : Definition} {e : Element} (gives : d.Gives e) :
    e.isDocumented = d.isDocumented := by
  unfold Element.isDocumented Definition.isDocumented
  rw [gives.documentation]

/-- Extraction tests just this. -/
theorem usable_iff {d : Definition} :
    d.Usable ↔ Extraction.isUsable d.name d.startLine d.endLine = true := by
  unfold Usable Definition.isNamed Extraction.isUsable
  rw [← Extraction.nonBlank?_isSome, Bool.and_eq_true]
  simp only [Option.any_eq_true, decide_eq_true_eq, UInt32.not_lt]
  refine and_congr_right fun _ => ?_
  constructor
  · exact fun ⟨first, last, starts, ends, ordered⟩ => ⟨first, starts, last, ends, ordered⟩
  · exact fun ⟨first, starts, last, ends, ordered⟩ => ⟨first, last, starts, ends, ordered⟩

end Outline.Definition

namespace Outline

variable {e : Element}

theorem Class.Yields.gives {c : Class} (yields : c.Yields e) : c.definition.Gives e where
  named := Option.isSome_iff_exists.mpr ⟨_, yields.name⟩
  startLine := yields.startLine
  endLine := yields.endLine
  documentation := congrArg Element.documentation yields.parts

theorem Function.Yields.gives {f : Function} (yields : f.Yields e) : f.definition.Gives e where
  named := Option.isSome_iff_exists.mpr ⟨_, yields.name⟩
  startLine := yields.startLine
  endLine := yields.endLine
  documentation := congrArg Element.documentation yields.parts

end Outline

namespace Outline

open Extraction

variable {o : Outline} {extraction : Extraction} {conventions : Conventions}

/-- No usable range has all of the 2^32 lines. -/
def FitsRanges (o : Outline) : Prop :=
  ∀ d ∈ o.definitions, ∀ first last, d.startLine = some first → d.endLine = some last →
    last - first ≠ 4294967295

/-- A range of all lines is the only one whose length cannot be computed. -/
theorem extract_ok (fits : o.FitsRanges) : ∃ extraction, o.extract = .ok extraction := by
  have short : ∀ d ∈ o.definitions, ¬ isWhole d.name d.startLine d.endLine = true := by
    intro d member whole
    simp only [isWhole, Bool.and_eq_true, beq_iff_eq] at whole
    exact fits d member _ _ whole.1.2 whole.2 rfl
  rcases o.extract_cases with ⟨whole, _⟩ | ⟨_, extraction, extracted, _⟩
  · rcases Bool.or_eq_true_iff.mp whole with inClasses | inFunctions
    · obtain ⟨c, member, whole⟩ := List.any_eq_true.mp inClasses
      exact absurd whole
        (short c.definition (List.mem_append_left _ (List.mem_map_of_mem member)))
    · obtain ⟨f, member, whole⟩ := List.any_eq_true.mp inFunctions
      exact absurd whole
        (short f.definition (List.mem_append_right _ (List.mem_map_of_mem member)))
  · exact ⟨extraction, extracted⟩

/-- The elements that are considered, with and without documentation. -/
def considered (conventions : Conventions) (extraction : Extraction) : List Element :=
  (extraction.elements.resolve conventions).classes ++
    (extraction.elements.resolve conventions).functions

/-- Resolution changes neither lines nor documentation. -/
theorem gives_considered (conventions : Conventions) (extracted : o.extract = .ok extraction) :
    (∀ e ∈ considered conventions extraction, ∃ d ∈ o.definitions, d.Gives e) ∧
      ∀ d ∈ o.definitions, d.Usable → ∃ e ∈ considered conventions extraction, d.Gives e := by
  have yields := yields_of_extract extracted
  simp only [considered, definitions, Elements.resolve, Extraction.elements, List.mem_append,
    List.mem_map]
  refine ⟨?_, ?_⟩
  · rintro e (⟨x, member, rfl⟩ | ⟨x, member, rfl⟩)
    · obtain ⟨c, usable, yield⟩ := exists_left_of_mem yields.classes member
      have gives := yield.gives
      exact ⟨_, Or.inl ⟨c, (List.mem_filter.mp usable).1, rfl⟩,
        ⟨gives.1, gives.2, gives.3, gives.4⟩⟩
    · obtain ⟨f, usable, yield⟩ := exists_left_of_mem yields.functions member
      have gives := yield.gives
      exact ⟨_, Or.inr ⟨f, (List.mem_filter.mp usable).1, rfl⟩,
        ⟨gives.1, gives.2, gives.3, gives.4⟩⟩
  · rintro d (⟨c, member, rfl⟩ | ⟨f, member, rfl⟩) usable
    · obtain ⟨x, kept, yield⟩ := exists_right_of_mem yields.classes
        (List.mem_filter.mpr ⟨member, Definition.usable_iff.mp usable⟩)
      have gives := yield.gives
      exact ⟨_, Or.inl ⟨x, kept, rfl⟩, ⟨gives.1, gives.2, gives.3, gives.4⟩⟩
    · obtain ⟨x, kept, yield⟩ := exists_right_of_mem yields.functions
        (List.mem_filter.mpr ⟨member, Definition.usable_iff.mp usable⟩)
      have gives := yield.gives
      exact ⟨_, Or.inr ⟨x, kept, rfl⟩, ⟨gives.1, gives.2, gives.3, gives.4⟩⟩

end Outline

namespace Element

/-- One element for every start line, and none that was not there. -/
theorem firstPerLine_covers (es : List Element) :
    (∀ e ∈ es, ∃ x ∈ firstPerLine es, x.startLine = e.startLine) ∧
      ∀ x ∈ firstPerLine es, x ∈ es := by
  refine ⟨fun e member => ?_, fun x first => (mem_firstPerLine_iff.mp first).mem⟩
  cases found : leader? es e.startLine with
  | none => exact absurd rfl (leader?_eq_none_iff.mp found e member)
  | some x =>
    obtain ⟨leads, same⟩ := leader?_eq_some_iff.mp found
    exact ⟨x, mem_firstPerLine_iff.mpr leads, same⟩

end Element

namespace Outline

variable {o : Outline} {extraction : Extraction} {conventions : Conventions}

/-- What is due stems from a definition of the outline that has no documentation. -/
theorem toDocument_given (extracted : o.extract = .ok extraction) {e : Element}
    (member : e ∈ (extraction.elements.resolve conventions).toDocument) :
    ∃ d ∈ o.definitions, d.Gives e ∧ d.isDocumented = false := by
  obtain ⟨first, undocumented⟩ := List.mem_filter.mp member
  obtain ⟨d, inOutline, gives⟩ := (gives_considered conventions extracted).1 e
    ((Element.firstPerLine_covers _).2 e first)
  refine ⟨d, inOutline, gives, ?_⟩
  rw [← gives.isDocumented]
  simpa using undocumented

/-- A usable definition without documentation, alone on its line, is due. -/
theorem exists_toDocument (extracted : o.extract = .ok extraction) {d : Definition}
    (member : d ∈ o.definitions) (usable : d.Usable) (undocumented : d.isDocumented = false)
    (alone : ∀ other ∈ o.definitions, other.startLine = d.startLine → other = d) :
    ∃ e ∈ (extraction.elements.resolve conventions).toDocument, d.Gives e := by
  obtain ⟨given, exist⟩ := gives_considered conventions extracted
  obtain ⟨x, considered, gives⟩ := exist d member usable
  obtain ⟨e, first, same⟩ := (Element.firstPerLine_covers _).1 x considered
  obtain ⟨other, inOutline, otherGives⟩ := given e ((Element.firstPerLine_covers _).2 e first)
  obtain rfl : other = d := by
    apply alone other inOutline
    rw [otherGives.startLine, gives.startLine, same]
  refine ⟨e, List.mem_filter.mpr ⟨first, ?_⟩, otherGives⟩
  simp [otherGives.isDocumented, undocumented]

end Outline

end AutoDoc
