import AutoDoc.Proofs.Element.Pending
import Mathlib.Data.List.Nodup

/-!
# Elements on lines of their own

Of elements that start on one line only the first counts. When all start on different lines, each of
them counts (`firstPerLine_perm`). The elements of an outline do so when its definitions do
(`considered_startLines`), so then the elements to document are exactly those without documentation
(`toDocument_perm`).
-/

namespace AutoDoc

namespace Element

/-- Elements on lines of their own all count. -/
theorem firstPerLine_perm {es : List Element} (distinct : (es.map (·.startLine)).Nodup) :
    (firstPerLine es).Perm es := by
  have once : (firstPerLine es).Nodup := by
    refine (firstPerLine_pairwise es).imp fun {a b} below => ?_
    rintro rfl
    exact UInt32.lt_irrefl _ below
  refine (List.perm_ext_iff_of_nodup once distinct.of_map).mpr fun e => ?_
  rw [mem_firstPerLine_iff]
  refine ⟨Leads.mem, fun member => ?_⟩
  obtain ⟨before, after, rfl⟩ := List.append_of_mem member
  refine ⟨before, after, rfl, fun x here same => ?_⟩
  rw [List.map_append, List.map_cons] at distinct
  exact (List.nodup_append.mp distinct).2.2 _ (List.mem_map_of_mem here) _ List.mem_cons_self same

end Element

namespace Outline

/-- The definitions of an outline are those of its entries, in another order. -/
theorem definitions_perm_ofEntries (entries : List Entry) :
    (ofEntries entries).definitions.Perm (entries.filterMap Entry.definition?) := by
  induction entries with
  | nil => exact List.Perm.refl _
  | cons entry rest ih =>
    cases entry with
    | ofClass c => exact ih.cons c.definition
    | ofFunction f => exact List.perm_middle.trans (ih.cons f.definition)
    | ofException e => exact ih

open Extraction

variable {o : Outline} {extraction : Extraction}

/-- What the usable entries of a list yield starts on lines that these name, in their order. -/
theorem startLines_of_yields {α : Type} (startLine : α → Option UInt32)
    {yields : α → Element → Prop} (starts : ∀ a e, yields a e → startLine a = some e.startLine)
    {usable : α → Bool} {as : List α} {es : List Element}
    (pairs : List.Forall₂ yields (as.filter usable) es) :
    (es.map fun e => some e.startLine).Sublist (as.map startLine) := by
  have lines : es.map (fun e => some e.startLine) = (as.filter usable).map startLine := by
    generalize as.filter usable = kept at pairs
    induction pairs with
    | nil => rfl
    | cons first _ ih => rw [List.map_cons, List.map_cons, starts _ _ first, ih]
  rw [lines]
  exact List.filter_sublist.map startLine

/-- Elements start on lines that the definitions of their outline name, in their order. -/
theorem considered_startLines (conventions : Conventions) (extracted : o.extract = .ok extraction) :
    ((considered conventions extraction).map fun e => some e.startLine).Sublist
      (o.definitions.map (·.startLine)) := by
  have yields := yields_of_extract extracted
  have ofClasses := startLines_of_yields Class.startLine (fun _ _ yield => yield.startLine)
    yields.classes
  have ofFunctions := startLines_of_yields Function.startLine (fun _ _ yield => yield.startLine)
    yields.functions
  simpa [considered, definitions, Class.definition, Function.definition, Elements.resolve,
    Function.comp_def] using ofClasses.append ofFunctions

/-- When definitions start on lines of their own and none has documentation, all elements are to be
documented. -/
theorem toDocument_perm (conventions : Conventions) (extracted : o.extract = .ok extraction)
    (distinct : (o.definitions.map (·.startLine)).Nodup)
    (undocumented : ∀ d ∈ o.definitions, d.isDocumented = false) :
    (extraction.elements.resolve conventions).toDocument.Perm
      (considered conventions extraction) := by
  have lines := (considered_startLines conventions extracted).nodup distinct
  have lines : ((considered conventions extraction).map (·.startLine)).Nodup := by
    refine List.Nodup.of_map some ?_
    rwa [List.map_map]
  have all := Element.firstPerLine_perm lines
  have none : ∀ e ∈ Element.firstPerLine (considered conventions extraction),
      (!e.isDocumented) = true := by
    intro e member
    obtain ⟨d, inOutline, gives⟩ := (gives_considered conventions extracted).1 e
      (all.mem_iff.mp member)
    rw [gives.isDocumented, undocumented d inOutline]
    rfl
  have whole := List.filter_eq_self.mpr none
  exact (List.Perm.of_eq whole).trans all

end Outline

end AutoDoc
