import AutoDoc.Proofs.Text.Folding

/-!
# Trimmed texts

Trimming leaves a text that neither starts nor ends with white space, so trimming again changes
nothing (`trim_trim`). What is left is empty just if the text was blank (`isEmpty_trim`), so the trim
of any other text is `Trimmed`.
-/

namespace AutoDoc.Text

/-- A trimmed text does not end with white space. -/
theorem isWhite_getLast_trimChars {cs : List Char} {c : Char}
    (last : (trimChars cs).getLast? = some c) : isWhite c = false := by
  have dark := List.head?_dropWhile_not isWhite (cs.dropWhile isWhite).reverse
  rw [trimChars, dropRightWhile, List.getLast?_reverse] at last
  rw [last] at dark
  simpa using dark

/-- Characters with no white space at either end are trimmed already. -/
theorem trimChars_of_dark {cs : List Char} (leads : ∀ c ∈ cs.head?, isWhite c = false)
    (trails : ∀ c ∈ cs.getLast?, isWhite c = false) : trimChars cs = cs := by
  have keep : ∀ {cs : List Char}, (∀ c ∈ cs.head?, isWhite c = false) →
      cs.dropWhile isWhite = cs := by
    intro cs leads
    cases cs with
    | nil => rfl
    | cons c cs => exact List.dropWhile_cons_of_neg (by simp [leads c rfl])
  rw [trimChars, keep leads, dropRightWhile, keep (by rwa [List.head?_reverse]),
    List.reverse_reverse]

theorem trim_trim (s : String) : trim (trim s) = trim s := by
  rw [trim, trim, String.toList_ofList]
  refine congrArg String.ofList (trimChars_of_dark (fun c leads => ?_) fun c trails => ?_)
  · obtain ⟨rest, whole⟩ := List.head?_eq_some_iff.mp leads
    exact isWhite_head_trimChars whole
  · exact isWhite_getLast_trimChars trails

/-- Trimming drops nothing but white space. -/
theorem mem_trim {s : String} {c : Char} (member : c ∈ s.toList) (dark : isWhite c = false) :
    c ∈ (trim s).toList := by
  obtain ⟨before, after, split, leading, trailing⟩ := trimChars_split s.toList
  rw [split, List.mem_append, List.mem_append] at member
  rw [trim, String.toList_ofList]
  have outside : ∀ {cs : List Char}, cs.all isWhite = true → c ∉ cs := by
    intro cs white inside
    rw [List.all_eq_true.mp white c inside] at dark
    cases dark
  rcases member with (early | within) | late
  · exact absurd early (outside leading)
  · exact within
  · exact absurd late (outside trailing)

theorem isEmpty_trim (s : String) : (trim s).isEmpty = isBlank s := by
  rw [Bool.eq_iff_iff, String.isEmpty_iff, ← String.toList_inj, trim, String.toList_ofList]
  exact trimChars_eq_nil

/-- A text that is not empty and has no white space at its ends. -/
def Trimmed (s : String) : Prop := s ≠ "" ∧ trim s = s

instance (s : String) : Decidable (Trimmed s) := inferInstanceAs (Decidable (_ ∧ _))

theorem trimmed_trim {s : String} (dark : isBlank s = false) : Trimmed (trim s) := by
  refine ⟨fun empty => ?_, trim_trim s⟩
  rw [← isEmpty_trim, empty] at dark
  cases dark

theorem Trimmed.isBlank {s : String} (trimmed : Trimmed s) : isBlank s = false := by
  rw [← isEmpty_trim, trimmed.2, Bool.eq_false_iff, ne_eq, String.isEmpty_iff]
  exact trimmed.1

end AutoDoc.Text
