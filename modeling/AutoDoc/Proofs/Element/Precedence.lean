import AutoDoc.Proofs.Revision.Descent
import Mathlib.Data.List.Induction
import Mathlib.Data.List.Sort

/-!
# Which element of a line counts

Elements may start on one line: a parser may report a definition twice, or a class with a method on
the same line. Then the first one in the list of classes and functions counts and hides the others
(`mem_firstPerLine_iff`). The elements to document are those that count and have no documentation,
so a line gets one block at most, and none if the element that counts has documentation, whatever
the elements lack that it hides (`toDocument_exact`).

The elements that count are found by inserting one after another. To sort all of them by line first,
keeping the order of those on one line, and to drop all but the first of each line then comes to the
same (`toDocument_eq_mergeSort`).
-/

namespace AutoDoc

namespace Element

/-- The first element of a list that starts on a line. -/
def leader? (es : List Element) (line : UInt32) : Option Element :=
  es.find? fun e => e.startLine == line

/-- The element leads its line: no element in front of it starts there. -/
def Leads (es : List Element) (e : Element) : Prop :=
  ∃ before after, es = before ++ e :: after ∧ ∀ x ∈ before, x.startLine ≠ e.startLine

section

variable {es : List Element} {e x : Element} {line : UInt32}

theorem startLine_of_leader? (found : leader? es line = some e) : e.startLine = line := by
  simpa using List.find?_some found

theorem leader?_eq_none_iff : leader? es line = none ↔ ∀ x ∈ es, x.startLine ≠ line := by
  simp [leader?]

/-- The search by line finds the element that leads the line. -/
theorem leader?_eq_some_iff : leader? es line = some e ↔ Leads es e ∧ e.startLine = line := by
  unfold leader? Leads
  rw [List.find?_eq_some_iff_append]
  constructor
  · rintro ⟨starts, before, after, rfl, others⟩
    obtain rfl : e.startLine = line := by simpa using starts
    exact ⟨⟨before, after, rfl, fun x member => by simpa using others x member⟩, rfl⟩
  · rintro ⟨⟨before, after, rfl, others⟩, rfl⟩
    exact ⟨by simp, before, after, rfl, fun x member => by simpa using others x member⟩

theorem Leads.leader? (leads : Leads es e) : leader? es e.startLine = some e :=
  leader?_eq_some_iff.mpr ⟨leads, rfl⟩

theorem Leads.mem (leads : Leads es e) : e ∈ es := List.mem_of_find?_eq_some leads.leader?

/-- An element behind the others leads its line if none of them starts there. -/
theorem leads_concat_iff :
    Leads (es ++ [e]) x ↔ Leads es x ∨ x = e ∧ ∀ y ∈ es, y.startLine ≠ e.startLine := by
  have here : ∀ other, Leads other x ↔ leader? other x.startLine = some x := fun other =>
    ⟨Leads.leader?, fun found => (leader?_eq_some_iff.mp found).1⟩
  rw [here, here, leader?, List.find?_append, ← leader?]
  cases found : leader? es x.startLine with
  | some y =>
    have taken : ∃ z ∈ es, z.startLine = x.startLine :=
      ⟨y, List.mem_of_find?_eq_some found, startLine_of_leader? found⟩
    constructor
    · exact Or.inl
    · rintro (same | ⟨rfl, free⟩)
      · exact same
      · obtain ⟨z, member, same⟩ := taken
        exact absurd same (free z member)
  | none =>
    have free := leader?_eq_none_iff.mp found
    by_cases same : x = e
    · subst same
      simpa using free
    · have differs : ¬ e = x := Ne.symm same
      simp [same, differs]

/-- An element goes into a descending list just if its line is free there. -/
theorem mem_insertDescending_iff {sorted : List Element} (descending : sorted.Pairwise Below) :
    x ∈ insertDescending e sorted ↔
      x ∈ sorted ∨ x = e ∧ ∀ y ∈ sorted, y.startLine ≠ e.startLine := by
  induction sorted with
  | nil => simp [insertDescending]
  | cons head rest ih =>
    obtain ⟨first, others⟩ := List.pairwise_cons.mp descending
    unfold insertDescending
    split
    next lower =>
      -- The whole list starts above the element, so its line is free.
      have free : ∀ y ∈ head :: rest, y.startLine ≠ e.startLine := by
        intro y member same
        have above := UInt32.lt_iff_toNat_lt.mp lower
        rw [← same] at above
        rcases List.mem_cons.mp member with rfl | inRest
        · exact Nat.lt_irrefl _ above
        · exact Nat.lt_asymm above (first y inRest)
      rw [List.mem_cons, or_comm, and_iff_left free]
    next =>
      split
      next taken =>
        have full : ¬ ∀ y ∈ head :: rest, y.startLine ≠ e.startLine :=
          fun free => free head List.mem_cons_self taken
        rw [or_iff_left fun hidden => full hidden.2]
      next differs =>
        rw [List.mem_cons, ih others, List.forall_mem_cons, and_iff_right differs, List.mem_cons,
          or_assoc]

/-- The elements that count are those that lead their lines. -/
theorem mem_firstPerLine_iff : x ∈ firstPerLine es ↔ Leads es x := by
  induction es using List.reverseRecOn generalizing x with
  | nil => simp [firstPerLine, Leads]
  | append_singleton es e ih =>
    have step : firstPerLine (es ++ [e]) = insertDescending e (firstPerLine es) := by
      simp [firstPerLine]
    have free : (∀ y ∈ firstPerLine es, y.startLine ≠ e.startLine) ↔
        ∀ y ∈ es, y.startLine ≠ e.startLine := by
      have unled : (∀ y ∈ es, y.startLine ≠ e.startLine) ↔
          ∀ y, leader? es e.startLine ≠ some y := by
        rw [← leader?_eq_none_iff, Option.eq_none_iff_forall_ne_some]
      rw [unled]
      simp only [ne_eq, leader?_eq_some_iff, ih, not_and]
    rw [step, mem_insertDescending_iff (firstPerLine_pairwise es), ih, free, leads_concat_iff]

/-- In a descending list no two elements start on one line. -/
theorem filter_line_of_mem {sorted : List Element} (descending : sorted.Pairwise Below)
    (member : e ∈ sorted) : sorted.filter (fun x => x.startLine == e.startLine) = [e] := by
  obtain ⟨before, after, rfl⟩ := List.append_of_mem member
  obtain ⟨_, lower, higher⟩ := List.pairwise_append.mp descending
  have apart : ∀ {a b : Element}, Below a b → a.startLine ≠ b.startLine :=
    fun below same => Nat.ne_of_gt below (congrArg UInt32.toNat same)
  have noneAbove : before.filter (fun x => x.startLine == e.startLine) = [] := by
    refine List.filter_eq_nil_iff.mpr fun x here => ?_
    simpa using apart (higher x here e List.mem_cons_self)
  have noneBelow : after.filter (fun x => x.startLine == e.startLine) = [] := by
    refine List.filter_eq_nil_iff.mpr fun x here => ?_
    simpa using (apart ((List.pairwise_cons.mp lower).1 x here)).symm
  rw [List.filter_append, noneAbove, List.filter_cons_of_pos (by simp), noneBelow, List.nil_append]

/-! ### Sorting first -/

/-- The order from the bottom of a source to its top. -/
def notAbove (a b : Element) : Bool := decide (b.startLine ≤ a.startLine)

theorem notAbove_trans (a b c : Element) (first : notAbove a b = true)
    (second : notAbove b c = true) : notAbove a c = true := by
  simp only [notAbove, decide_eq_true_eq, UInt32.le_iff_toNat_le] at *
  omega

theorem notAbove_total (a b : Element) : (notAbove a b || notAbove b a) = true := by
  simp only [notAbove, Bool.or_eq_true, decide_eq_true_eq, UInt32.le_iff_toNat_le]
  omega

/-- Sorting keeps the order of the elements on a line. -/
theorem filter_mergeSort (es : List Element) (line : UInt32) :
    (es.mergeSort notAbove).filter (fun e => e.startLine == line) =
      es.filter fun e => e.startLine == line := by
  have equal : (es.filter fun e => e.startLine == line).Pairwise fun a b => notAbove a b = true := by
    refine List.pairwise_of_forall_mem_list fun a inLine b inLine' => ?_
    have here := beq_iff_eq.mp (List.mem_filter.mp inLine).2
    have there := beq_iff_eq.mp (List.mem_filter.mp inLine').2
    simp [notAbove, here, there]
  have kept := List.sublist_mergeSort notAbove_trans notAbove_total equal List.filter_sublist
  have again := kept.filter fun e => e.startLine == line
  rw [List.filter_filter] at again
  simp only [Bool.and_self] at again
  exact (again.eq_of_length ((List.mergeSort_perm es notAbove).filter _).length_eq.symm).symm

theorem leader?_mergeSort (es : List Element) (line : UInt32) :
    leader? (es.mergeSort notAbove) line = leader? es line := by
  rw [leader?, leader?, ← List.head?_filter, ← List.head?_filter, filter_mergeSort]

def sameLine (a b : Element) : Bool := a.startLine == b.startLine

/-- Dropping the elements on one line touches the leader of no other. -/
theorem leader?_filter_sameLine (head : Element) (rest : List Element) (line : UInt32) :
    leader? (rest.filter fun b => decide (sameLine b head = false)) line =
      if head.startLine = line then none else leader? rest line := by
  rw [leader?, List.find?_filter]
  split
  next same =>
    refine List.find?_eq_none.mpr fun e _ => ?_
    simp [sameLine, same]
  next differs =>
    rw [leader?]
    congr 1
    funext e
    by_cases here : e.startLine = line
    · simp [sameLine, here, Ne.symm differs]
    · simp [here]

/-- The first elements of their lines are those that lead them. -/
theorem mem_eraseDupsBy_iff : x ∈ es.eraseDupsBy sameLine ↔ leader? es x.startLine = some x := by
  induction length : es.length using Nat.strongRecOn generalizing es with
  | ind n ih =>
    cases es with
    | nil => simp [leader?]
    | cons head rest =>
      have shorter : (rest.filter fun b => decide (sameLine b head = false)).length < n := by
        rw [← length]
        exact Nat.lt_succ_of_le (List.length_filter_le _ _)
      rw [List.eraseDupsBy_cons, List.mem_cons, ih _ shorter rfl, leader?_filter_sameLine]
      by_cases same : head.startLine = x.startLine
      · rw [if_pos same, leader?, List.find?_cons_of_pos (by simpa using same), Option.some_inj,
          eq_comm, or_iff_left nofun]
      · have differs : x ≠ head := fun equal => same (by rw [equal])
        rw [if_neg same, leader?, leader?, List.find?_cons_of_neg (by simpa using same),
          or_iff_right differs]

/-- Of sorted elements the first ones of their lines strictly descend. -/
theorem eraseDupsBy_pairwise (sorted : es.Pairwise fun a b => notAbove a b = true) :
    (es.eraseDupsBy sameLine).Pairwise Below := by
  induction length : es.length using Nat.strongRecOn generalizing es with
  | ind n ih =>
    cases es with
    | nil => simp
    | cons head rest =>
      obtain ⟨first, others⟩ := List.pairwise_cons.mp sorted
      have shorter : (rest.filter fun b => decide (sameLine b head = false)).length < n := by
        rw [← length]
        exact Nat.lt_succ_of_le (List.length_filter_le _ _)
      rw [List.eraseDupsBy_cons, List.pairwise_cons]
      refine ⟨fun e member => ?_, ih _ shorter (others.filter _) rfl⟩
      have inRest := List.mem_of_find?_eq_some (mem_eraseDupsBy_iff.mp member)
      obtain ⟨here, apart⟩ := List.mem_filter.mp inRest
      have above := first e here
      simp only [notAbove, sameLine, decide_eq_true_eq, beq_eq_false_iff_ne, ne_eq,
        UInt32.le_iff_toNat_le, ← UInt32.toNat_inj] at above apart
      exact Nat.lt_of_le_of_ne above apart

theorem firstPerLine_eq_mergeSort (es : List Element) :
    firstPerLine es = (es.mergeSort notAbove).eraseDupsBy sameLine := by
  have sorted := List.pairwise_mergeSort notAbove_trans notAbove_total es
  have antisymm : Std.Antisymm Below := ⟨fun a b below above => absurd above (Nat.lt_asymm below)⟩
  have irrefl : Std.Irrefl Below := ⟨fun a => Nat.lt_irrefl _⟩
  refine (firstPerLine_pairwise es).eq_of_mem_iff (eraseDupsBy_pairwise sorted) fun x => ?_
  rw [mem_firstPerLine_iff, mem_eraseDupsBy_iff, leader?_mergeSort, leader?_eq_some_iff,
    and_iff_left rfl]

end

end Element

open Element

/-- The elements to document are got from all classes and functions by a stable sort from the bottom
to the top, by dropping all but the first of each line, and then those with documentation. -/
theorem Elements.toDocument_eq_mergeSort (es : Elements) :
    es.toDocument = (((es.classes ++ es.functions).mergeSort notAbove).eraseDupsBy sameLine).filter
      fun e => !e.isDocumented := by
  rw [toDocument, firstPerLine_eq_mergeSort]

/-- The elements to document strictly descend by start line. They are the elements that lead their
lines, in the list of classes and functions, and have blank documentation. So of the elements on a
line just the one that leads it is documented if its documentation is blank, and else none is. -/
theorem Elements.toDocument_exact (es : Elements) :
    let all := es.classes ++ es.functions
    es.toDocument.Pairwise (fun a b => b.startLine < a.startLine) ∧
    (∀ e, e ∈ es.toDocument ↔
      (∃ before after, all = before ++ e :: after ∧ ∀ x ∈ before, x.startLine ≠ e.startLine) ∧
        Text.isBlank e.documentation = true) ∧
    (∀ line, es.toDocument.filter (fun e => e.startLine == line) =
      match all.find? fun e => e.startLine == line with
      | none => []
      | some first => if Text.isBlank first.documentation then [first] else []) := by
  intro all
  have descending := es.toDocument_descending
  have mem_iff : ∀ e, e ∈ es.toDocument ↔ Leads all e ∧ Text.isBlank e.documentation = true := by
    intro e
    simp only [toDocument, List.mem_filter, mem_firstPerLine_iff, isDocumented, Bool.not_not, all]
  refine ⟨descending.imp UInt32.lt_iff_toNat_lt.mpr, mem_iff, fun line => ?_⟩
  have onLine : ∀ e ∈ es.toDocument, e.startLine = line → leader? all line = some e :=
    fun e member same => leader?_eq_some_iff.mpr ⟨((mem_iff e).mp member).1, same⟩
  change _ = match leader? all line with | none => [] | some first => _
  split
  next none =>
    refine List.filter_eq_nil_iff.mpr fun e member here => ?_
    have found := onLine e member (beq_iff_eq.mp here)
    rw [none] at found
    cases found
  next first found =>
    obtain ⟨leads, rfl⟩ := leader?_eq_some_iff.mp found
    split
    next blank => exact filter_line_of_mem descending ((mem_iff first).mpr ⟨leads, blank⟩)
    next documented =>
      refine List.filter_eq_nil_iff.mpr fun e member here => ?_
      have same := onLine e member (beq_iff_eq.mp here)
      rw [found] at same
      cases same
      exact documented ((mem_iff first).mp member).2

end AutoDoc
