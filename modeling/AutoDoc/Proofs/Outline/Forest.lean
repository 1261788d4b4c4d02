import AutoDoc.Proofs.Outline.Scopes

/-!
# Definitions form a forest

The classes and functions that the reader by indentation reports for a valid source form a forest
(`read_forest`): their ranges are apart or one holds the other, the context of each names the
definitions around it, and a function names the class that directly encloses it as its owner.

The records of an outline are those of the headers of the source (`entriesFrom_records`), so the
forest is that of the headers (`apart_or_contains`, `record_around`).
-/

namespace AutoDoc

namespace Outline

/-- A class or a function of an outline with every field that tells its place. -/
structure Record where
  name : String
  isClass : Bool
  /-- The number of the first line. -/
  first : Nat
  /-- The number of the last line. -/
  last : Nat
  context : List String
  /-- The class that a function names as its owner. -/
  owner : String
deriving DecidableEq, Repr

/-- The record of a class, if it tells its place. -/
def Class.record? (c : Class) : Option Record := do
  return {
    name := ← c.name
    isClass := true
    first := (← c.startLine).toNat
    last := (← c.endLine).toNat
    context := ← c.context
    owner := "" }

/-- The record of a function, if it tells its place. -/
def Function.record? (f : Function) : Option Record := do
  return {
    name := ← f.name
    isClass := false
    first := (← f.startLine).toNat
    last := (← f.endLine).toNat
    context := ← f.context
    owner := ← f.owner }

namespace Record

def Covers (r : Record) (line : Nat) : Prop := r.first ≤ line ∧ line ≤ r.last

/-- The range of `a` holds that of `b` and begins before it. -/
def Contains (a b : Record) : Prop := a.first < b.first ∧ b.last ≤ a.last

/-- The ranges have no line in common. -/
def Apart (a b : Record) : Prop := a.last < b.first ∨ b.last < a.first

/-- The records around `r`, outermost first: all others whose ranges hold its first line. -/
structure Around (records : List Record) (r : Record) (around : List Record) : Prop where
  mem_iff : ∀ a, a ∈ around ↔ a ∈ records ∧ a ≠ r ∧ a.Covers r.first
  outermostFirst : around.Pairwise Contains

/-- The owner of a function within records, outermost first: the innermost one if it is a class. -/
def ownerWithin (around : List Record) : String :=
  match around.getLast? with
  | some a => if a.isClass then a.name else ""
  | none => ""

/-- Classes and functions of a text with `size` lines form a forest. -/
structure Forest (size : Nat) (classes functions : List Record) : Prop where
  within : ∀ r ∈ classes ++ functions, 1 ≤ r.first ∧ r.first ≤ r.last ∧ r.last ≤ size
  distinct : (classes ++ functions).Pairwise fun a b => a.first ≠ b.first
  classesAscend : classes.Pairwise fun a b => a.first < b.first
  functionsAscend : functions.Pairwise fun a b => a.first < b.first
  nested : (classes ++ functions).Pairwise fun a b => a.Apart b ∨ a.Contains b ∨ b.Contains a
  placed : ∀ r ∈ classes ++ functions, ∃ around, Around (classes ++ functions) r around ∧
    r.context = around.map (·.name) ∧ (r ∈ functions → r.owner = ownerWithin around)

end Record

/-- What the record of an entry is, for an entry of a class or of a function. -/
def Entry.record? (isClass : Bool) : Entry → Option (Option Record)
  | .ofClass c => if isClass then some c.record? else none
  | .ofFunction f => if isClass then none else some f.record?
  | .ofException _ => none

theorem classes_records (entries : List Entry) :
    (ofEntries entries).classes.map Class.record? = entries.filterMap (Entry.record? true) := by
  rw [ofEntries, List.map_filterMap]
  congr 1
  funext entry
  cases entry <;> rfl

theorem functions_records (entries : List Entry) :
    (ofEntries entries).functions.map Function.record? =
      entries.filterMap (Entry.record? false) := by
  rw [ofEntries, List.map_filterMap]
  congr 1
  funext entry
  cases entry <;> rfl

/-- Uses of exceptions are no records. -/
theorem no_record_of_exceptions {found : Option Entry} (isClass : Bool)
    (exceptions : ∀ entry ∈ found, ∃ e, entry = .ofException e) :
    found.toList.filterMap (Entry.record? isClass) = [] := by
  rw [List.filterMap_eq_nil_iff]
  intro entry member
  obtain ⟨e, rfl⟩ := exceptions entry (Option.mem_toList.mp member)
  rfl

end Outline

namespace ScannedLine

open Outline

/-! ### Records of headers -/

def Header.record (lines : List ScannedLine) (h : Header) : Record where
  name := h.line.definedName
  isClass := h.isClass
  first := h.index + 1
  last := h.last + 1
  context := contextOf ((h.enclosing lines).map Header.scope)
  owner := if h.isClass then "" else ownerOf ((h.enclosing lines).map Header.scope)

def recordsOf (lines : List ScannedLine) (isClass : Bool) : List Record :=
  ((headersFrom 0 lines).filter (·.isClass == isClass)).map (·.record lines)

section

variable {lines : List ScannedLine} (short : lines.length < UInt32.size)
include short

/-- The entry of a header gives its record, and its scope is opened. -/
theorem entryOf_header {h : Header} (place : h.At lines) :
    ∃ entry, entryOf ((h.enclosing lines).map Header.scope) h.index h.line h.rest =
        (some entry, some h.scope) ∧
      ∀ isClass, entry.record? isClass =
        if h.isClass == isClass then some (some (h.record lines)) else none := by
  have bound := place.last_lt
  have first : (lineNumber h.index).toNat = h.index + 1 :=
    lineNumber_toNat (by unfold Header.last at bound; omega)
  have last : (lineNumber (h.index + (bodyOf h.line.indent h.rest).length)).toNat = h.last + 1 :=
    lineNumber_toNat (by unfold Header.last at bound; omega)
  have header := place.header
  simp only [isHeader, Bool.and_eq_true] at header
  obtain ⟨keyword, starts⟩ := Option.isSome_iff_exists.mp header.2
  cases keyword with
  | classDef =>
    have isClass : h.isClass = true := by simp [Header.isClass, starts]
    have record : (classEntry ((h.enclosing lines).map Header.scope) h.index h.line
        (bodyOf h.line.indent h.rest)).record? = some (h.record lines) := by
      simp [Class.record?, classEntry, Header.record, definedName, starts, isClass, first, last]
    refine ⟨_, by rw [entryOf_class _ _ _ starts, Header.scope, isClass], fun wanted => ?_⟩
    rw [isClass, Entry.record?, record]
    cases wanted <;> rfl
  | functionDef =>
    have isClass : h.isClass = false := by simp [Header.isClass, starts]
    have record : (functionEntry ((h.enclosing lines).map Header.scope) h.index h.line
        (bodyOf h.line.indent h.rest)).record? = some (h.record lines) := by
      simp [Function.record?, functionEntry, Header.record, definedName, starts, isClass, first,
        last]
    refine ⟨_, by rw [entryOf_function _ _ _ starts, Header.scope, isClass], fun wanted => ?_⟩
    rw [isClass, Entry.record?, record]
    cases wanted <;> rfl

/-- With the scopes of the headers that reach it, the reader gives for the lines from `j` on the
records of their headers. -/
theorem entriesFrom_records {j : Nat} {opened : List Header} {rest : List ScannedLine}
    (scopes : Scoped lines j opened) (found : lines.drop j = rest) (isClass : Bool) :
    (entriesFrom (opened.map Header.scope) j rest).filterMap (Entry.record? isClass) =
      ((headersFrom j rest).filter (·.isClass == isClass)).map fun h =>
        some (h.record lines) := by
  induction rest generalizing j opened with
  | nil => rfl
  | cons l rest ih =>
    have behind : lines.drop (j + 1) = rest := by
      rw [← List.drop_drop, found]
      rfl
    unfold entriesFrom headersFrom
    cases code : l.isCode with
    | false =>
      have plain : l.isHeader = false := by simp [isHeader, code]
      rw [plain]
      exact ih (scopes.skip found code) behind
    | true =>
      have remaining : (opened.map Header.scope).dropWhile (l.indent ≤ ·.indent) =
          (opened.dropWhile (l.indent ≤ ·.line.indent)).map Header.scope := List.dropWhile_map
      simp only [if_true, remaining]
      cases header : l.isHeader with
      | false =>
        have keyword : l.keyword? = none := by simpa [isHeader, code] using header
        obtain ⟨exceptions, closed⟩ := entryOf_plain
          ((opened.dropWhile (l.indent ≤ ·.line.indent)).map Header.scope) j rest keyword
        rw [List.filterMap_append, no_record_of_exceptions isClass exceptions, closed]
        exact ih (scopes.pass found code header) behind
      | true =>
        have place : Header.At lines ⟨j, l, rest⟩ := ⟨found, header⟩
        have around : opened.dropWhile (l.indent ≤ ·.line.indent) =
            Header.enclosing lines ⟨j, l, rest⟩ := scopes.enclosing_eq place
        obtain ⟨entry, given, record⟩ := entryOf_header short place
        have later := ih (scopes.enter found header) behind
        rw [around, List.map_cons] at later
        rw [around, given, List.filterMap_append, if_pos rfl]
        rw [Option.toList_some, List.filterMap_cons, record, List.filterMap_nil, List.filter_cons,
          Option.toList_some, List.singleton_append, later]
        cases Header.isClass ⟨j, l, rest⟩ == isClass <;> rfl

theorem entries_records (isClass : Bool) :
    (entriesFrom [] 0 lines).filterMap (Entry.record? isClass) =
      (recordsOf lines isClass).map some := by
  rw [recordsOf, List.map_map]
  exact entriesFrom_records short (Scoped.start lines) rfl isClass

end

/-! ### The forest of the headers -/

/-- A body reaches over all lines that belong to it, if it reaches behind them. -/
theorem length_bodyOf_append {indent : Nat} {before behind : List ScannedLine}
    (inside : ∀ x ∈ before, inBody indent x = true) (goesOn : hasBody indent behind = true) :
    (bodyOf indent (before ++ behind)).length =
      before.length + (bodyOf indent behind).length := by
  have run : ∀ before : List ScannedLine, (∀ x ∈ before, inBody indent x = true) →
      bodyOf indent (before ++ behind) = before ++ bodyOf indent behind ∧
        hasBody indent (before ++ behind) = true := by
    intro before inside
    induction before with
    | nil => exact ⟨rfl, goesOn⟩
    | cons x rest ih =>
      obtain ⟨here, later⟩ := List.forall_mem_cons.mp inside
      obtain ⟨body, more⟩ := ih later
      rw [List.cons_append, hasBody_cons, bodyOf_cons, here, more, body]
      simp
  rw [(run before inside).1, List.length_append]

/-- The body of a definition that is indented less does not end before. -/
theorem length_bodyOf_le {outer inner : Nat} (deeper : outer ≤ inner) (lines : List ScannedLine) :
    (bodyOf inner lines).length ≤ (bodyOf outer lines).length := by
  induction lines with
  | nil => exact Nat.le_refl _
  | cons x rest ih =>
    rw [bodyOf_cons, bodyOf_cons]
    split
    next within =>
      simp only [Bool.and_eq_true, Bool.or_eq_true] at within
      obtain ⟨inside, kept⟩ := within
      have inside : inBody outer x = true := by
        simp only [inBody, Bool.or_eq_true, decide_eq_true_eq] at inside ⊢
        exact inside.imp_right fun less => Nat.lt_of_le_of_lt deeper less
      have kept : (!x.isTrailing || hasBody outer rest) = true := by
        rw [Bool.or_eq_true]
        refine kept.imp_right fun more => ?_
        simp only [hasBody, Bool.not_eq_true', List.isEmpty_eq_false_iff] at more ⊢
        refine List.ne_nil_of_length_pos (Nat.lt_of_lt_of_le ?_ ih)
        exact List.length_pos_of_ne_nil more
      rw [if_pos (by rw [inside, kept]; rfl), List.length_cons, List.length_cons]
      omega
    next => exact Nat.zero_le _

section

variable {lines : List ScannedLine} {a b h : Header}

/-- A definition that begins within another one ends within it. -/
theorem Header.last_le_last (outer : a.At lines) (inner : b.At lines) (before : a.index < b.index)
    (inside : b.index ≤ a.last) : b.last ≤ a.last := by
  have behind := outer.drop_rest before inner.found
  have reaches : ∀ x ∈ a.rest.take (b.index - (a.index + 1) + 1),
      inBody a.line.indent x = true := by
    rw [← lt_bodyOf_length behind inner.isCode]
    unfold Header.last at inside
    omega
  have parts := List.take_append_drop (b.index - (a.index + 1)) a.rest
  have upTo : a.rest.take (b.index - (a.index + 1) + 1) =
      a.rest.take (b.index - (a.index + 1)) ++ [b.line] := by
    rw [List.take_add_one, ← List.head?_drop, behind]
    rfl
  rw [upTo, List.forall_mem_append, List.forall_mem_singleton] at reaches
  obtain ⟨between, header⟩ := reaches
  have code := inner.isCode
  simp only [isCode, Bool.and_eq_true, Bool.not_eq_true'] at code
  have deeper : a.line.indent < b.line.indent := by simpa [inBody, code] using header
  have body : bodyOf a.line.indent (b.line :: b.rest) =
      b.line :: bodyOf a.line.indent b.rest := by
    rw [bodyOf_cons, if_pos (by simp [header, isTrailing, code])]
  have goesOn : hasBody a.line.indent (b.line :: b.rest) = true := by simp [hasBody, body]
  have extent := length_bodyOf_append between goesOn
  rw [← behind, parts, behind, body, List.length_take, List.length_cons] at extent
  have shorter := length_bodyOf_le (Nat.le_of_lt deeper) b.rest
  have room := congrArg List.length behind
  rw [List.length_drop, List.length_cons] at room
  unfold Header.last
  omega

/-- Of two headers the later one has its definition within that of the earlier one, or behind
it. -/
theorem apart_or_contains (outer : a.At lines) (inner : b.At lines) (before : a.index < b.index) :
    (a.record lines).Apart (b.record lines) ∨ (a.record lines).Contains (b.record lines) := by
  by_cases inside : b.index ≤ a.last
  · have ends := Header.last_le_last outer inner before inside
    exact Or.inr ⟨Nat.succ_lt_succ before, Nat.succ_le_succ ends⟩
  · exact Or.inl (Or.inl (Nat.succ_lt_succ (Nat.lt_of_not_le inside)))

/-- The records of the headers around a header stand around its record, outermost first. -/
theorem record_around {records : List Record}
    (all : ∀ r, r ∈ records ↔ ∃ a : Header, a.At lines ∧ r = a.record lines)
    (place : h.At lines) :
    Record.Around records (h.record lines) ((h.enclosing lines).reverse.map (·.record lines)) := by
  refine ⟨fun r => ?_, ?_⟩
  · simp only [List.mem_map, List.mem_reverse, Header.mem_enclosing]
    constructor
    · rintro ⟨a, ⟨outer, before, inside⟩, rfl⟩
      refine ⟨(all _).mpr ⟨a, outer, rfl⟩, fun same => ?_, ?_⟩
      · have first : a.index + 1 = h.index + 1 := congrArg Record.first same
        omega
      · exact ⟨Nat.succ_le_succ (Nat.le_of_lt before), Nat.succ_le_succ inside⟩
    · rintro ⟨member, other, begins, ends⟩
      obtain ⟨a, outer, rfl⟩ := (all r).mp member
      have begins : a.index ≤ h.index := Nat.le_of_succ_le_succ begins
      have different : a.index ≠ h.index := by
        intro same
        exact other (by rw [outer.ext place same])
      exact ⟨a, ⟨outer, by omega, Nat.le_of_succ_le_succ ends⟩, rfl⟩
  · rw [List.pairwise_map, List.pairwise_reverse]
    refine (Header.enclosing_inward lines h).imp_of_mem fun {a b} memberA memberB before => ?_
    obtain ⟨inner, beforeHeader, _⟩ := Header.mem_enclosing.mp memberA
    obtain ⟨outer, _, inside⟩ := Header.mem_enclosing.mp memberB
    have ends := Header.last_le_last outer inner before (by omega)
    exact ⟨Nat.succ_lt_succ before, Nat.succ_le_succ ends⟩

/-- The innermost header around decides about the owner. -/
theorem ownerOf_enclosing (enclosing : List Header) :
    ownerOf (enclosing.map Header.scope) =
      Record.ownerWithin (enclosing.reverse.map (·.record lines)) := by
  cases enclosing with
  | nil => rfl
  | cons a rest =>
    simp [ownerOf, Record.ownerWithin, Header.scope, Header.record]

end

section

variable (lines : List ScannedLine)

/-- Every header is one of a class or one of a function. -/
theorem headers_perm :
    ((headersFrom 0 lines).filter (·.isClass == true) ++
      (headersFrom 0 lines).filter (·.isClass == false)).Perm (headersFrom 0 lines) := by
  simpa using List.filter_append_perm (fun h : Header => h.isClass == true) (headersFrom 0 lines)

theorem mem_recordsOf (r : Record) :
    r ∈ recordsOf lines true ++ recordsOf lines false ↔
      ∃ a : Header, a.At lines ∧ r = a.record lines := by
  rw [recordsOf, recordsOf, ← List.map_append, List.mem_map]
  simp only [(headers_perm lines).mem_iff, Header.mem_headers, eq_comm]

/-- Two different headers stand on different lines. What relates the records of any two such headers
relates all records. -/
theorem pairwise_recordsOf {R : Record → Record → Prop}
    (holds : ∀ a b : Header, a.At lines → b.At lines → a.index ≠ b.index →
      R (a.record lines) (b.record lines)) :
    (recordsOf lines true ++ recordsOf lines false).Pairwise R := by
  have distinct : (headersFrom 0 lines).Nodup :=
    (headersFrom_ascending 0 lines).imp fun less same =>
      absurd (congrArg Header.index same) (by omega)
  rw [recordsOf, recordsOf, ← List.map_append, List.pairwise_map]
  refine ((headers_perm lines).nodup_iff.mpr distinct).imp_of_mem
    fun {a b} memberA memberB other => ?_
  have atA := Header.mem_headers.mp ((headers_perm lines).mem_iff.mp memberA)
  have atB := Header.mem_headers.mp ((headers_perm lines).mem_iff.mp memberB)
  exact holds a b atA atB fun same => other (atA.ext atB same)

theorem recordsOf_ascend (isClass : Bool) :
    (recordsOf lines isClass).Pairwise fun a b => a.first < b.first := by
  rw [recordsOf, List.pairwise_map]
  exact ((headersFrom_ascending 0 lines).filter _).imp Nat.succ_lt_succ

theorem isClass_of_mem_recordsOf {r : Record} {isClass : Bool}
    (member : r ∈ recordsOf lines isClass) : r.isClass = isClass := by
  obtain ⟨h, listed, rfl⟩ := List.mem_map.mp member
  exact beq_iff_eq.mp (List.mem_filter.mp listed).2

/-- The records of the headers of some lines form a forest. -/
theorem forest_of_headers :
    Record.Forest lines.length (recordsOf lines true) (recordsOf lines false) where
  within r member := by
    obtain ⟨h, place, rfl⟩ := (mem_recordsOf lines r).mp member
    exact ⟨Nat.succ_le_succ (Nat.zero_le _), Nat.succ_le_succ (Nat.le_add_right _ _),
      place.last_lt⟩
  distinct := pairwise_recordsOf lines fun a b _ _ other same => other (Nat.succ.inj same)
  classesAscend := recordsOf_ascend lines true
  functionsAscend := recordsOf_ascend lines false
  nested := by
    refine pairwise_recordsOf lines fun a b atA atB other => ?_
    rcases Nat.lt_or_gt_of_ne other with before | behind
    · exact (apart_or_contains atA atB before).imp_right Or.inl
    · rcases apart_or_contains atB atA behind with apart | contains
      · exact Or.inl apart.symm
      · exact Or.inr (Or.inr contains)
  placed r member := by
    obtain ⟨h, place, rfl⟩ := (mem_recordsOf lines r).mp member
    refine ⟨_, record_around (mem_recordsOf lines) place, ?_, fun isFunction => ?_⟩
    · simp [Header.record, contextOf, Header.scope, List.map_reverse]
    · have isClass : h.isClass = false := isClass_of_mem_recordsOf lines isFunction
      rw [← ownerOf_enclosing]
      simp [Header.record, isClass]

end

end ScannedLine

namespace Outline

open ScannedLine

/-- In a valid source every class and function is reported with its name, range and context, and
they form a forest. -/
theorem read_forest (source : String) (valid : (read source).valid = true)
    (short : (SourceText.ofText source).size < UInt32.size) :
    ∃ classes functions, (read source).classes.map Class.record? = classes.map some ∧
      (read source).functions.map Function.record? = functions.map some ∧
      Record.Forest (SourceText.ofText source).size classes functions := by
  obtain ⟨_, _, outline⟩ := read_valid valid
  have size : (scan (SourceText.ofText source)).1.length = (SourceText.ofText source).size :=
    scanFrom_length _ _
  refine ⟨_, _, ?_, ?_, size ▸ forest_of_headers (scan (SourceText.ofText source)).1⟩
  · rw [outline, classes_records]
    exact entries_records (size ▸ short) true
  · rw [outline, functions_records]
    exact entries_records (size ▸ short) false

/-- A function in a method of a class, and one behind them: all four are reported. -/
theorem read_forest_nested :
    let source := "class A:\n    def f(self):\n        def g():\n            pass\n\n        # end\n\n" ++
      "def h():\n    pass\n"
    (SourceText.ofText source).size = 10 ∧ ∃ classes functions : List Record,
      classes = [⟨"A", true, 1, 4, [], ""⟩] ∧
      functions = [⟨"f", false, 2, 4, ["A"], "A"⟩, ⟨"g", false, 3, 4, ["A", "f"], ""⟩,
        ⟨"h", false, 8, 9, [], ""⟩] ∧
      (read source).classes.map Class.record? = classes.map some ∧
      (read source).functions.map Function.record? = functions.map some ∧
      Record.Forest (SourceText.ofText source).size classes functions := by
  intro source
  have computed : (read source).valid = true ∧ (SourceText.ofText source).size = 10 ∧
      (read source).classes.map Class.record? = [some ⟨"A", true, 1, 4, [], ""⟩] ∧
      (read source).functions.map Function.record? =
        [some ⟨"f", false, 2, 4, ["A"], "A"⟩, some ⟨"g", false, 3, 4, ["A", "f"], ""⟩,
          some ⟨"h", false, 8, 9, [], ""⟩] := by
    decide +kernel
  obtain ⟨valid, size, computedClasses, computedFunctions⟩ := computed
  obtain ⟨classes, functions, ofClasses, ofFunctions, forest⟩ :=
    read_forest source valid (size ▸ by decide)
  have present : Function.Injective (List.map (some (α := Record))) :=
    List.map_injective_iff.mpr fun _ _ => Option.some.inj
  exact ⟨size, classes, functions, present (ofClasses.symm.trans computedClasses),
    present (ofFunctions.symm.trans computedFunctions), ofClasses, ofFunctions, forest⟩

end Outline

end AutoDoc
