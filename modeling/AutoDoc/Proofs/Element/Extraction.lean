import AutoDoc.Element.Extraction
import AutoDoc.Proofs.Text.Trimmed
import Mathlib.Data.List.Forall2

/-!
# What extraction keeps

An entry is usable if it has a name that is not blank and lines that are not inverted. Extraction of
a list keeps the usable entries in their order and counts the others, unless a usable range has all
of the 2^32 lines: then there is no number for its length (`each_verdicts`). What is kept has the
parts that its entry reports, and numbers and texts that fit together (`Element.Sound`,
`ExceptionUse.Sound`), so nothing behind extraction meets a blank name, an inverted range or a count
that is off (`Outline.extract_keeps_usable`).
-/

namespace AutoDoc

open Text (Trimmed)

/-- What holds of every element that was extracted. -/
structure Element.Sound (e : Element) : Prop where
  name : Trimmed e.name
  ordered : e.startLine ≤ e.endLine
  totalLines : e.totalLines.toNat = e.endLine.toNat - e.startLine.toNat + 1
  linesOfCode_le : e.linesOfCode ≤ e.totalLines
  linesOfCode_eq : Text.isBlank e.documentation = true → e.linesOfCode = e.totalLines
  method_iff : e.kind = .method ↔ e.owner ≠ ""
  owner : Text.trim e.owner = e.owner
  parameters : ∀ p ∈ e.parameters, Trimmed p.name ∧ ∀ hint ∈ p.typeHint, Trimmed hint
  parameterCount : e.parameterCount = e.parameters.length
  annotatedCount : e.annotatedCount = e.parameters.countP (·.typeHint.isSome)
  returns : ∀ hint ∈ e.returns, Trimmed hint
  bases : ∀ base ∈ e.inheritance, Text.isBlank base = false
  classVariables : ∀ name ∈ e.classVariables, Trimmed name
  instanceVariables : ∀ name ∈ e.instanceVariables, Trimmed name

/-- What holds of every use of an exception that was extracted. -/
structure ExceptionUse.Sound (u : ExceptionUse) : Prop where
  name : Trimmed u.name
  ordered : u.startLine ≤ u.endLine
  localName : ∀ name ∈ u.localName, Trimmed name

namespace Extraction

theorem nonBlank?_eq_some_iff {s : Option String} {t : String} :
    nonBlank? s = some t ↔ ∃ raw ∈ s, Text.isBlank raw = false ∧ Text.trim raw = t := by
  rw [nonBlank?, Option.filter_eq_some_iff, Option.map_eq_some_iff]
  constructor
  · rintro ⟨⟨raw, given, rfl⟩, dark⟩
    rw [Text.isEmpty_trim, Bool.not_eq_true'] at dark
    exact ⟨raw, given, dark, rfl⟩
  · rintro ⟨raw, given, dark, rfl⟩
    refine ⟨⟨raw, given, rfl⟩, ?_⟩
    rw [Text.isEmpty_trim, dark, Bool.not_false]

theorem nonBlank?_isSome (s : Option String) :
    (nonBlank? s).isSome = s.any fun raw => !Text.isBlank raw := by
  cases s with
  | none => rfl
  | some raw =>
    cases dark : Text.isBlank raw <;>
      simp [nonBlank?, Option.filter, Text.isEmpty_trim, dark]

theorem trimmed_of_nonBlank? {s : Option String} {t : String} (found : nonBlank? s = some t) :
    Trimmed t := by
  obtain ⟨raw, _, dark, rfl⟩ := nonBlank?_eq_some_iff.mp found
  exact Text.trimmed_trim dark

/-- An entry with these parts is kept. -/
def isUsable (name : Option String) (startLine endLine : Option UInt32) : Bool :=
  name.any (fun n => !Text.isBlank n) && startLine.any fun s => endLine.any fun e => s ≤ e

/-- An entry with these parts is one of all lines that a word can number. -/
def isWhole (name : Option String) (startLine endLine : Option UInt32) : Bool :=
  name.any (fun n => !Text.isBlank n) && startLine == some 0 && endLine == some 4294967295

/-- The range of a usable entry is found, and no other. -/
theorem range_cases (kind : EntryKind) (index : Nat) (name : Option String)
    (startLine endLine : Option UInt32) :
    (isUsable name startLine endLine = false ∧
      ∃ r, range kind index name startLine endLine = .error r) ∨
    isUsable name startLine endLine = true ∧ ∃ n s e,
      range kind index name startLine endLine = .ok (n, s, e) ∧
      nonBlank? name = some n ∧ startLine = some s ∧ endLine = some e ∧ s ≤ e := by
  unfold isUsable
  rw [← nonBlank?_isSome]
  unfold range
  cases nonBlank? name with
  | none => exact Or.inl ⟨rfl, _, rfl⟩
  | some n =>
    match startLine, endLine with
    | none, _ => exact Or.inl ⟨rfl, _, rfl⟩
    | some s, none => exact Or.inl ⟨rfl, _, rfl⟩
    | some s, some e =>
      dsimp only
      split
      next inverted =>
        exact Or.inl ⟨by simpa using inverted, _, rfl⟩
      next order =>
        have ordered : s ≤ e := UInt32.not_lt.mp order
        exact Or.inr ⟨by simpa using ordered, n, s, e, rfl, rfl, rfl, rfl, ordered⟩

/-- The lines of a range can be counted unless it has all that a word can number. -/
theorem lineCount_cases {s e : UInt32} (ordered : s ≤ e) :
    (s = 0 ∧ e = 4294967295 ∧ lineCount s e = .error .addOverflow) ∨
    ¬ (s = 0 ∧ e = 4294967295) ∧
      ∃ total, lineCount s e = .ok total ∧ total.toNat = e.toNat - s.toNat + 1 := by
  have below := UInt32.le_iff_toNat_le.mp ordered
  have length := UInt32.toNat_sub_of_le e s ordered
  have limit : e.toNat < 4294967296 := e.toNat_lt
  have largest : (4294967295 : UInt32).toNat = 4294967295 := rfl
  unfold lineCount
  split
  next whole =>
    have all : e.toNat - s.toNat = 4294967295 := by rw [← length, whole, largest]
    refine Or.inl ⟨UInt32.toNat_inj.mp ?_, UInt32.toNat_inj.mp ?_, rfl⟩
    · change s.toNat = 0
      omega
    · omega
  next short =>
    refine Or.inr ⟨?_, _, rfl, ?_⟩
    · rintro ⟨rfl, rfl⟩
      exact short rfl
    · have fits : (e - s).toNat ≠ 4294967295 := fun same => short (UInt32.toNat_inj.mp same)
      rw [UInt32.toNat_add, length, Nat.mod_eq_of_lt]
      · rfl
      · change e.toNat - s.toNat + 1 < 4294967296
        omega

/-- There are no more lines of code than lines. -/
theorem codeLines_le (total : UInt32) (documentation : String) :
    codeLines total documentation ≤ total := by
  unfold codeLines
  split
  next => exact UInt32.le_refl total
  next =>
    dsimp only
    split
    next => exact UInt32.zero_le
    next enough =>
      have enough := UInt32.not_lt.mp enough
      rw [UInt32.le_iff_toNat_le, UInt32.toNat_sub_of_le _ _ enough]
      exact Nat.sub_le _ _

theorem variableNames_trimmed (vs : Option (List Outline.Variable)) :
    ∀ name ∈ variableNames vs, Trimmed name := by
  intro name member
  obtain ⟨v, _, found⟩ := List.mem_filterMap.mp member
  exact trimmed_of_nonBlank? found

end Extraction

namespace Outline

open Extraction

/-- The parameter that a named entry yields. -/
structure Parameter.Yields (p : Outline.Parameter) (q : AutoDoc.Parameter) : Prop where
  name : nonBlank? p.name = some q.name
  typeHint : q.typeHint = nonBlank? p.typeHint
  default : q.default = p.default

/-- The element that a class entry yields: with the parts that it reports, and no others. -/
structure Class.Yields (c : Class) (e : Element) : Prop where
  name : nonBlank? c.name = some e.name
  startLine : c.startLine = some e.startLine
  endLine : c.endLine = some e.endLine
  parts : e = {
    name := e.name, startLine := e.startLine, endLine := e.endLine
    totalLines := e.totalLines, linesOfCode := e.linesOfCode
    kind := .classDef
    documentation := c.documentation.getD ""
    context := c.context.getD []
    inheritance := (c.inheritance.getD []).filter fun base => !Text.isBlank base
    classVariables := variableNames c.classVariables
    instanceVariables := variableNames c.instanceVariables }
  sound : e.Sound

/-- The element that a function entry yields: with the parts that it reports, and no others. -/
structure Function.Yields (f : Function) (e : Element) : Prop where
  name : nonBlank? f.name = some e.name
  startLine : f.startLine = some e.startLine
  endLine : f.endLine = some e.endLine
  parts : e = {
    name := e.name, startLine := e.startLine, endLine := e.endLine
    totalLines := e.totalLines, linesOfCode := e.linesOfCode, kind := e.kind
    parameters := e.parameters, parameterCount := e.parameterCount
    annotatedCount := e.annotatedCount
    documentation := f.documentation.getD ""
    context := f.context.getD []
    owner := Text.trim (f.owner.getD "")
    returns := nonBlank? f.returns }
  parameters : List.Forall₂ Parameter.Yields
    ((f.parameters.getD []).filter fun p => (nonBlank? p.name).isSome) e.parameters
  kind : e.kind = .function ∨ e.kind = .method
  sound : e.Sound

/-- The use of an exception that an entry yields. -/
structure Exception.Yields (x : Exception) (u : ExceptionUse) : Prop where
  name : nonBlank? x.name = some u.name
  startLine : x.startLine = some u.startLine
  endLine : x.endLine = some u.endLine
  localName : u.localName = nonBlank? x.localName
  sound : u.Sound

end Outline

namespace Extraction

/-- What becomes of an entry: it is dropped, it ends extraction, or it yields a value that is
kept. -/
inductive Verdict {β : Type} (usable whole : Bool) (yields : β → Prop) :
    Except Fault (Except Rejection β) → Prop where
  | dropped (r : Rejection) :
    usable = false → whole = false → Verdict usable whole yields (.ok (.error r))
  | fault : whole = true → Verdict usable whole yields (.error .addOverflow)
  | kept (b : β) :
    usable = true → whole = false → yields b → Verdict usable whole yields (.ok (.ok b))

theorem isUsable_of_isWhole {name : Option String} {startLine endLine : Option UInt32}
    (whole : isWhole name startLine endLine = true) : isUsable name startLine endLine = true := by
  simp only [isWhole, Bool.and_eq_true, beq_iff_eq] at whole
  obtain ⟨⟨named, rfl⟩, rfl⟩ := whole
  simp only [isUsable, named, Bool.true_and]
  rfl

/-- Entries that differ in kind are extracted alike: the range is found, then its lines counted. -/
theorem verdict_of_range {β : Type} {yields : β → Prop} (kind : EntryKind) (index : Nat)
    (name : Option String) (startLine endLine : Option UInt32)
    (build : String → UInt32 → UInt32 → UInt32 → β)
    (built : ∀ n s e total, nonBlank? name = some n → startLine = some s → endLine = some e →
      s ≤ e → total.toNat = e.toNat - s.toNat + 1 → yields (build n s e total)) :
    Verdict (isUsable name startLine endLine) (isWhole name startLine endLine) yields
      (match range kind index name startLine endLine with
      | .error r => .ok (.error r)
      | .ok (n, s, e) => do
        let total ← lineCount s e
        return .ok (build n s e total)) := by
  rcases range_cases kind index name startLine endLine with
    ⟨unusable, r, found⟩ | ⟨usable, n, s, e, found, named, first, last, ordered⟩
  · rw [found]
    refine .dropped r unusable (Bool.eq_false_iff.mpr fun whole => ?_)
    rw [isUsable_of_isWhole whole] at unusable
    cases unusable
  · rw [found]
    have isWhole_iff : isWhole name startLine endLine = true ↔ s = 0 ∧ e = 4294967295 := by
      have dark : name.any (fun raw => !Text.isBlank raw) = true := by
        rw [← nonBlank?_isSome, named]
        rfl
      simp [isWhole, dark, first, last]
    rcases lineCount_cases ordered with ⟨zero, largest, faults⟩ | ⟨short, total, counted, length⟩
    · simp only [faults]
      exact .fault (isWhole_iff.mpr ⟨zero, largest⟩)
    · simp only [counted]
      exact .kept _ usable (Bool.eq_false_iff.mpr (mt isWhole_iff.mp short))
        (built n s e total named first last ordered length)

theorem parameter?_yields (p : Outline.Parameter) :
    (nonBlank? p.name).isSome = false ∧ parameter? p = none ∨
      (nonBlank? p.name).isSome = true ∧ ∃ q, parameter? p = some q ∧ p.Yields q := by
  unfold parameter?
  cases named : nonBlank? p.name with
  | none => exact Or.inl ⟨rfl, rfl⟩
  | some name => exact Or.inr ⟨rfl, _, rfl, named, rfl, rfl⟩

theorem parameters_yield (ps : List Outline.Parameter) :
    List.Forall₂ Outline.Parameter.Yields (ps.filter fun p => (nonBlank? p.name).isSome)
      (ps.filterMap parameter?) := by
  induction ps with
  | nil => exact List.Forall₂.nil
  | cons p rest ih =>
    rcases parameter?_yields p with ⟨unnamed, skipped⟩ | ⟨named, q, found, yields⟩
    · rwa [List.filter_cons_of_neg (by simp [unnamed]), List.filterMap_cons_none skipped]
    · rw [List.filter_cons_of_pos (by exact named), List.filterMap_cons_some found]
      exact List.Forall₂.cons yields ih

/-- An extracted parameter has a trimmed name and counts as annotated just if it has a hint. -/
theorem sound_of_parameter? {p : Outline.Parameter} {q : Parameter}
    (found : parameter? p = some q) :
    (Trimmed q.name ∧ ∀ hint ∈ q.typeHint, Trimmed hint) ∧ q.isAnnotated = q.typeHint.isSome := by
  obtain ⟨name, named, rfl⟩ := Option.map_eq_some_iff.mp found
  refine ⟨⟨trimmed_of_nonBlank? named, fun hint => trimmed_of_nonBlank?⟩, ?_⟩
  unfold Parameter.isAnnotated
  cases hinted : nonBlank? p.typeHint with
  | none => rfl
  | some hint => simp [(trimmed_of_nonBlank? hinted).isBlank]

/-- So is a class. -/
theorem ofClass_verdict (index : Nat) (c : Outline.Class) :
    Verdict (isUsable c.name c.startLine c.endLine) (isWhole c.name c.startLine c.endLine) c.Yields
      (ofClass index c) := by
  refine verdict_of_range .classDef index c.name c.startLine c.endLine _ ?_
  intro n s e total named first last ordered length
  refine ⟨named, first, last, rfl, ?_⟩
  constructor
  case name => exact trimmed_of_nonBlank? named
  case ordered => exact ordered
  case totalLines => exact length
  case linesOfCode_le => exact codeLines_le _ _
  case linesOfCode_eq => exact fun blank => if_pos blank
  case method_iff => simp
  case owner => exact (by decide : Text.trim "" = "")
  case parameters => exact List.forall_mem_nil _
  case parameterCount => rfl
  case annotatedCount => rfl
  case returns => exact nofun
  case bases =>
    intro base member
    simpa using (List.mem_filter.mp member).2
  case classVariables => exact variableNames_trimmed _
  case instanceVariables => exact variableNames_trimmed _

/-- A function is kept, dropped or the end of the extraction as its name and range decide. -/
theorem ofFunction_verdict (index : Nat) (f : Outline.Function) :
    Verdict (isUsable f.name f.startLine f.endLine) (isWhole f.name f.startLine f.endLine) f.Yields
      (ofFunction index f) := by
  refine verdict_of_range .function index f.name f.startLine f.endLine _ ?_
  intro n s e total named first last ordered length
  have sound : ∀ q ∈ (f.parameters.getD []).filterMap parameter?, _ := fun q member =>
    sound_of_parameter? (List.mem_filterMap.mp member).choose_spec.2
  -- The kind is a name from here on: comparing elements would run the test on the owner.
  generalize kindOf : (if (Text.trim (f.owner.getD "")).isEmpty then ElementKind.function
    else .method) = kind
  have kinds : (kind = .function ∨ kind = .method) ∧
      (kind = .method ↔ Text.trim (f.owner.getD "") ≠ "") := by
    rw [← kindOf, ne_eq, ← String.isEmpty_iff]
    split
    next free => simp [free]
    next owned => simp [owned]
  refine ⟨named, first, last, rfl, parameters_yield _, kinds.1, ?_⟩
  constructor
  case name => exact trimmed_of_nonBlank? named
  case ordered => exact ordered
  case totalLines => exact length
  case linesOfCode_le => exact codeLines_le _ _
  case linesOfCode_eq => exact fun blank => if_pos blank
  case method_iff => exact kinds.2
  case owner => exact Text.trim_trim _
  case parameters => exact fun q member => (sound q member).1
  case parameterCount => rfl
  case annotatedCount =>
    refine List.countP_congr fun q member => ?_
    rw [(sound q member).2]
  case returns => exact fun hint => trimmed_of_nonBlank?
  case bases => exact List.forall_mem_nil _
  case classVariables => exact List.forall_mem_nil _
  case instanceVariables => exact List.forall_mem_nil _

/-- The length of a use of an exception is not counted, so none ends extraction. -/
theorem ofException_verdict (index : Nat) (x : Outline.Exception) :
    Verdict (isUsable x.name x.startLine x.endLine) false x.Yields (.ok (ofException index x)) := by
  unfold ofException
  rcases range_cases .exception index x.name x.startLine x.endLine with
    ⟨unusable, r, found⟩ | ⟨usable, n, s, e, found, named, first, last, ordered⟩
  · rw [found]
    exact .dropped r unusable rfl
  · rw [found]
    exact .kept _ usable rfl ⟨named, first, last, rfl,
      ⟨trimmed_of_nonBlank? named, ordered, fun name => trimmed_of_nonBlank?⟩⟩

theorem exists_left_of_mem {α β : Type} {R : α → β → Prop} {as : List α} {bs : List β}
    (pairs : List.Forall₂ R as bs) {b : β} (member : b ∈ bs) : ∃ a ∈ as, R a b := by
  induction pairs with
  | nil => cases member
  | @cons a _ as _ first _ ih =>
    rcases List.mem_cons.mp member with rfl | later
    · exact ⟨a, List.mem_cons_self, first⟩
    · obtain ⟨x, inRest, related⟩ := ih later
      exact ⟨x, List.mem_cons_of_mem _ inRest, related⟩

theorem exists_right_of_mem {α β : Type} {R : α → β → Prop} {as : List α} {bs : List β}
    (pairs : List.Forall₂ R as bs) {a : α} (member : a ∈ as) : ∃ b ∈ bs, R a b :=
  exists_left_of_mem (R := flip R) pairs.flip member

/-- Entries are kept in their order if they are usable and dropped otherwise; one of all lines ends
extraction. -/
theorem each_verdicts {α β : Type} {f : Nat → α → Except Fault (Except Rejection β)}
    {usable whole : α → Bool} {yields : α → β → Prop}
    (verdict : ∀ index a, Verdict (usable a) (whole a) (yields a) (f index a)) (index : Nat)
    (as : List α) :
    (as.any whole = true ∧ each f index as = .error .addOverflow) ∨
      as.any whole = false ∧ ∃ results, each f index as = .ok results ∧
        List.Forall₂ yields (as.filter usable) (kept results) ∧
        results.length = (kept results).length + as.countP (!usable ·) := by
  induction as generalizing index with
  | nil => exact Or.inr ⟨rfl, [], rfl, List.Forall₂.nil, rfl⟩
  | cons a rest ih =>
    have first := verdict index a
    generalize found : f index a = result at first
    unfold each
    rw [found, List.any_cons]
    cases first with
    | fault whole => exact Or.inl ⟨by simp [whole], rfl⟩
    | dropped r unusable short =>
      rw [short, Bool.false_or]
      rcases ih (index + 1) with ⟨later, faults⟩ | ⟨none, results, done, yield, count⟩
      · refine Or.inl ⟨later, ?_⟩
        rw [faults]
        rfl
      · refine Or.inr ⟨none, .error r :: results, ?_, ?_, ?_⟩
        · rw [done]
          rfl
        · rwa [List.filter_cons_of_neg (by simp [unusable])]
        · rw [List.length_cons, count, List.countP_cons_of_pos (by simp [unusable])]
          rfl
    | kept b usable short yields =>
      rw [short, Bool.false_or]
      rcases ih (index + 1) with ⟨later, faults⟩ | ⟨none, results, done, yield, count⟩
      · refine Or.inl ⟨later, ?_⟩
        rw [faults]
        rfl
      · refine Or.inr ⟨none, .ok b :: results, ?_, ?_, ?_⟩
        · rw [done]
          rfl
        · rw [List.filter_cons_of_pos usable]
          exact List.Forall₂.cons yields yield
        · rw [List.countP_cons_of_neg (by simp [usable])]
          simp only [kept, List.filterMap_cons, List.length_cons] at count ⊢
          omega

end Extraction

namespace Outline

open Extraction

/-- A class or a function reaches over all lines that a word can number. -/
def hasWhole (o : Outline) : Bool :=
  o.classes.any (fun c => isWhole c.name c.startLine c.endLine) ||
    o.functions.any fun f => isWhole f.name f.startLine f.endLine

/-- What an outline yields: every usable entry its value, in their order; the others are counted. -/
structure Yields (o : Outline) (x : Extraction) : Prop where
  classes : List.Forall₂ Class.Yields
    (o.classes.filter fun c => isUsable c.name c.startLine c.endLine) x.elements.classes
  functions : List.Forall₂ Function.Yields
    (o.functions.filter fun f => isUsable f.name f.startLine f.endLine) x.elements.functions
  exceptions : List.Forall₂ Exception.Yields
    (o.exceptions.filter fun e => isUsable e.name e.startLine e.endLine) x.elements.exceptions
  dropped : x.dropped =
    o.classes.countP (fun c => !isUsable c.name c.startLine c.endLine) +
      o.functions.countP (fun f => !isUsable f.name f.startLine f.endLine) +
      o.exceptions.countP fun e => !isUsable e.name e.startLine e.endLine

/-- A range of all lines ends extraction; without one it keeps and drops record by record. -/
theorem extract_cases (o : Outline) :
    (o.hasWhole = true ∧ o.extract = .error .addOverflow) ∨
      o.hasWhole = false ∧ ∃ x, o.extract = .ok x ∧ o.Yields x := by
  unfold hasWhole extract
  rcases each_verdicts ofClass_verdict 0 o.classes with
    ⟨whole, faults⟩ | ⟨shortClasses, classes, inClasses, fromClasses, ofClasses⟩
  · exact Or.inl ⟨by simp [whole], by rw [faults]; rfl⟩
  rcases each_verdicts ofFunction_verdict 0 o.functions with
    ⟨whole, faults⟩ | ⟨shortFunctions, functions, inFunctions, fromFunctions, ofFunctions⟩
  · exact Or.inl ⟨by simp [whole], by rw [inClasses, faults]; rfl⟩
  rcases each_verdicts ofException_verdict 0 o.exceptions with
    ⟨whole, _⟩ | ⟨_, exceptions, inExceptions, fromExceptions, ofExceptions⟩
  · simp at whole
  refine Or.inr ⟨by rw [shortClasses, shortFunctions]; rfl, ⟨classes, functions, exceptions⟩, ?_,
    fromClasses, fromFunctions, fromExceptions, ?_⟩
  · rw [inClasses, inFunctions, inExceptions]
    rfl
  · simp only [dropped, ofClasses, ofFunctions, ofExceptions, Nat.add_sub_cancel_left]

theorem yields_of_extract {o : Outline} {x : Extraction} (extracted : o.extract = .ok x) :
    o.Yields x := by
  rcases o.extract_cases with ⟨_, faults⟩ | ⟨_, y, done, yields⟩
  · rw [faults] at extracted
    cases extracted
  · rw [done] at extracted
    cases extracted
    exact yields

/-- Extraction overflows just if a named class or function has the range of all lines from 0 on.
Otherwise it comes to an end, keeps exactly the usable entries of each list in their order, counts
the others, and what it keeps is sound. -/
theorem extract_keeps_usable (o : Outline) :
    (o.extract = .error .addOverflow ↔ o.hasWhole = true) ∧
      (o.hasWhole = false → ∃ x, o.extract = .ok x ∧ o.Yields x ∧
        (∀ e ∈ x.elements.classes ++ x.elements.functions, e.Sound) ∧
        ∀ u ∈ x.elements.exceptions, u.Sound) := by
  rcases o.extract_cases with ⟨whole, faults⟩ | ⟨short, x, done, yields⟩
  · exact ⟨iff_of_true faults whole, fun short => by rw [short] at whole; cases whole⟩
  · refine ⟨iff_of_false (by rw [done]; exact nofun) (by simp [short]), fun _ =>
      ⟨x, done, yields, fun e member => ?_, fun u member => ?_⟩⟩
    · rcases List.mem_append.mp member with isClass | isFunction
      · obtain ⟨c, _, given⟩ := exists_left_of_mem yields.classes isClass
        exact given.sound
      · obtain ⟨f, _, given⟩ := exists_left_of_mem yields.functions isFunction
        exact given.sound
    · obtain ⟨entry, _, given⟩ := exists_left_of_mem yields.exceptions member
      exact given.sound

/-- A class without a name, one with all its parts, a method on one line of text, a range that is
inverted, and an exception without its last line. -/
theorem extract_keeps_usable_mixed :
    let o : Outline := {
      classes := [{ startLine := some 1, endLine := some 9 },
        { name := some " Ball ", startLine := some 3, endLine := some 9
          documentation := some "A ball.\nIt is round."
          inheritance := some ["Toy", " "], classVariables := some [{ name := some " size" }, {}] }]
      functions := [{ name := some "bounce", owner := some " Ball ", startLine := some 4
                      endLine := some 4, returns := some " "
                      parameters := some [{ name := some " self " }, { typeHint := some "int" },
                        { name := some "height", typeHint := some " int " }] },
        { name := some "f", startLine := some 8, endLine := some 7 }]
      exceptions := [{ name := some "OSError", startLine := some 5 }] }
    o.hasWhole = false ∧ ∃ x, o.extract = .ok x ∧ o.Yields x ∧ x.dropped = 3 ∧
      (∀ e ∈ x.elements.classes ++ x.elements.functions, e.Sound) ∧
      x.elements.classes.length = 1 ∧ x.elements.functions.length = 1 ∧
      x.elements.exceptions = [] := by
  intro o
  have short : o.hasWhole = false := by decide
  obtain ⟨x, done, yields, sound, _⟩ := (extract_keeps_usable o).2 short
  refine ⟨short, x, done, yields, yields.dropped.trans (by decide), sound, ?_, ?_, ?_⟩
  · exact yields.classes.length_eq.symm.trans (by decide)
  · exact yields.functions.length_eq.symm.trans (by decide)
  · exact List.eq_nil_of_length_eq_zero (yields.exceptions.length_eq.symm.trans (by decide))

end Outline

end AutoDoc
