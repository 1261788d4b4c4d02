import AutoDoc.Element.Extraction
import AutoDoc.Outline.Reader
import AutoDoc.Proofs.Text.Folding

/-!
# Headers and definitions

The reader by indentation reports a class or a function for every header, that is for every line of
code that starts with the keyword of a definition, and for nothing else. What it reports about the
range and the documentation depends on the header and the lines behind it, not on the scopes around.

* `mem_definitions_read` — the definitions of an outline are those of the headers of the scanned
  lines;
* `wellNested_header` — in a valid source every header ends with a colon;
* `wellNested_deeper` — and the next line of code behind a line that opens a block is deeper.
-/

namespace AutoDoc

namespace Outline

/-- What an outline reports about classes and functions alike. -/
structure Definition where
  name : Option String
  startLine : Option UInt32
  endLine : Option UInt32
  documentation : Option String
deriving DecidableEq, Repr

def Class.definition (c : Class) : Definition :=
  ⟨c.name, c.startLine, c.endLine, c.documentation⟩

def Function.definition (f : Function) : Definition :=
  ⟨f.name, f.startLine, f.endLine, f.documentation⟩

def definitions (o : Outline) : List Definition :=
  o.classes.map Class.definition ++ o.functions.map Function.definition

def Definition.isNamed (d : Definition) : Bool := (Extraction.nonBlank? d.name).isSome

def Definition.isDocumented (d : Definition) : Bool := !Text.isBlank (d.documentation.getD "")

/-- No definition with a name lacks documentation. -/
def FullyDocumented (o : Outline) : Prop :=
  ∀ d ∈ o.definitions, d.isNamed = true → d.isDocumented = true

def Entry.definition? : Entry → Option Definition
  | .ofClass c => some c.definition
  | .ofFunction f => some f.definition
  | .ofException _ => none

/-- The definitions of an outline are those of its entries, though it lists classes and functions
apart. -/
theorem mem_definitions_ofEntries {entries : List Entry} {d : Definition} :
    d ∈ (ofEntries entries).definitions ↔ d ∈ entries.filterMap Entry.definition? := by
  simp only [definitions, ofEntries, List.mem_append, List.mem_map, List.mem_filterMap]
  constructor
  · rintro (⟨c, ⟨entry, member, same⟩, rfl⟩ | ⟨f, ⟨entry, member, same⟩, rfl⟩)
    · refine ⟨entry, member, ?_⟩
      cases entry <;> simp_all [Entry.definition?]
    · refine ⟨entry, member, ?_⟩
      cases entry <;> simp_all [Entry.definition?]
  · rintro ⟨entry, member, same⟩
    cases entry with
    | ofClass c =>
      refine Or.inl ⟨c, ⟨_, member, rfl⟩, ?_⟩
      simpa [Entry.definition?] using same
    | ofFunction f =>
      refine Or.inr ⟨f, ⟨_, member, rfl⟩, ?_⟩
      simpa [Entry.definition?] using same
    | ofException e => simp [Entry.definition?] at same

end Outline

namespace ScannedLine

open Outline

def isHeader (l : ScannedLine) : Bool := l.isCode && l.keyword?.isSome

def definedName (l : ScannedLine) : String :=
  match l.keyword? with
  | some .classDef => headName (l.trimmed.drop "class ".length)
  | _ => headName (functionRest l)

/-- The definition whose header stands at `index` with `rest` behind it. -/
def definition (l : ScannedLine) (index : Nat) (rest : List ScannedLine) : Definition :=
  let body := bodyOf l.indent rest
  ⟨some l.definedName, some (lineNumber index), some (lineNumber (index + body.length)),
    some (documentationOf body)⟩

/-- A header with its place: its index, its line and the lines behind it. -/
structure Header where
  index : Nat
  line : ScannedLine
  rest : List ScannedLine

def headersFrom : Nat → List ScannedLine → List Header
  | _, [] => []
  | index, l :: rest =>
    if l.isHeader then ⟨index, l, rest⟩ :: headersFrom (index + 1) rest
    else headersFrom (index + 1) rest

/-- The headers are the lines of code that start a definition, each with the lines behind it. -/
theorem mem_headersFrom {index : Nat} {lines : List ScannedLine} {h : Header} :
    h ∈ headersFrom index lines ↔
      ∃ i, h.index = index + i ∧ lines.drop i = h.line :: h.rest ∧ h.line.isHeader = true := by
  induction lines generalizing index with
  | nil => simp [headersFrom]
  | cons head tail ih =>
    have later : h ∈ headersFrom (index + 1) tail ↔ ∃ i, h.index = index + (i + 1) ∧
        (head :: tail).drop (i + 1) = h.line :: h.rest ∧ h.line.isHeader = true := by
      simp only [ih, List.drop_succ_cons, Nat.add_assoc, Nat.add_comm 1]
    unfold headersFrom
    constructor
    · intro member
      split at member
      next header =>
        rcases List.mem_cons.mp member with rfl | inTail
        · exact ⟨0, rfl, rfl, header⟩
        · obtain ⟨i, found⟩ := later.mp inTail
          exact ⟨i + 1, found⟩
      next =>
        obtain ⟨i, found⟩ := later.mp member
        exact ⟨i + 1, found⟩
    · rintro ⟨i, place, found, header⟩
      cases i with
      | zero =>
        rcases h with ⟨_, line, rest⟩
        obtain rfl : _ = index := place
        cases found
        rw [if_pos header]
        exact List.mem_cons_self
      | succ i =>
        have inTail := later.mpr ⟨i, place, found, header⟩
        split
        · exact List.mem_cons_of_mem _ inTail
        · exact inTail

def definitionsFrom : Nat → List ScannedLine → List Definition
  | _, [] => []
  | index, l :: rest =>
    if l.isHeader then l.definition index rest :: definitionsFrom (index + 1) rest
    else definitionsFrom (index + 1) rest

/-- Definitions and headers correspond one to one, in the order of lines. -/
theorem definitionsFrom_eq (index : Nat) (lines : List ScannedLine) :
    definitionsFrom index lines =
      (headersFrom index lines).map fun h => h.line.definition h.index h.rest := by
  induction lines generalizing index with
  | nil => rfl
  | cons l rest ih =>
    unfold definitionsFrom headersFrom
    split
    · rw [ih, List.map_cons]
    · exact ih _

theorem mem_definitionsFrom {index : Nat} {lines : List ScannedLine} {d : Definition} :
    d ∈ definitionsFrom index lines ↔
      ∃ i l rest, lines.drop i = l :: rest ∧ l.isHeader = true ∧
        d = l.definition (index + i) rest := by
  simp only [definitionsFrom_eq, List.mem_map, mem_headersFrom]
  constructor
  · rintro ⟨h, ⟨i, place, found, header⟩, rfl⟩
    exact ⟨i, h.line, h.rest, found, header, by rw [place]⟩
  · rintro ⟨i, l, rest, found, header, rfl⟩
    exact ⟨⟨index + i, l, rest⟩, ⟨i, rfl, found, header⟩, rfl⟩

section

variable {l : ScannedLine}

/-- A line with the keyword of a definition neither raises nor handles an exception. -/
theorem no_exception_of_keyword {keyword : Keyword} (starts : l.keyword? = some keyword) :
    Text.afterMark? "raise ".toList l.trimmed = none ∧
      Text.afterMark? "except ".toList l.trimmed = none := by
  have other : ∀ mark : String, mark = "raise " ∨ mark = "except " →
      Text.afterMark? mark.toList l.trimmed = none := by
    intro mark exceptional
    cases found : Text.afterMark? mark.toList l.trimmed with
    | none => rfl
    | some rest =>
      have text := Text.afterMark?_eq_some found
      rw [keyword?, text] at starts
      rcases exceptional with rfl | rfl <;> cases starts
  exact ⟨other _ (Or.inl rfl), other _ (Or.inr rfl)⟩

theorem entryOf_class (scopes : List Scope) (index : Nat) (rest : List ScannedLine)
    (keyword : l.keyword? = some .classDef) :
    entryOf scopes index l rest =
      (some (.ofClass (classEntry scopes index l (bodyOf l.indent rest))),
        some ⟨l.definedName, true, l.indent⟩) := by
  obtain ⟨noRaise, noHandler⟩ := no_exception_of_keyword keyword
  simp only [entryOf, noRaise, noHandler, keyword, classEntry, definedName, Option.getD_some]

theorem entryOf_function (scopes : List Scope) (index : Nat) (rest : List ScannedLine)
    (keyword : l.keyword? = some .functionDef) :
    entryOf scopes index l rest =
      (some (.ofFunction (functionEntry scopes index l (bodyOf l.indent rest))),
        some ⟨l.definedName, false, l.indent⟩) := by
  obtain ⟨noRaise, noHandler⟩ := no_exception_of_keyword keyword
  simp only [entryOf, noRaise, noHandler, keyword, functionEntry, definedName, Option.getD_some]

/-- Any other line is at most the entry of an exception, and opens no scope. -/
theorem entryOf_plain (scopes : List Scope) (index : Nat) (rest : List ScannedLine)
    (keyword : l.keyword? = none) :
    (∀ entry ∈ (entryOf scopes index l rest).1, ∃ e, entry = .ofException e) ∧
      (entryOf scopes index l rest).2 = none := by
  unfold entryOf
  split
  next => simp
  next =>
    split
    next => simp +contextual
    next => simp [keyword]

/-- The entry of a line is a definition just if the line has the keyword of one. -/
theorem entryOf_definition (scopes : List Scope) (index : Nat) (rest : List ScannedLine) :
    (entryOf scopes index l rest).1.toList.filterMap Entry.definition? =
      if l.keyword?.isSome then [l.definition index rest] else [] := by
  cases keyword : l.keyword? with
  | none =>
    obtain ⟨exceptions, _⟩ := entryOf_plain scopes index rest keyword
    cases entry : (entryOf scopes index l rest).1 with
    | none => rfl
    | some e =>
      obtain ⟨use, rfl⟩ := exceptions e entry
      rfl
  | some definition =>
    cases definition with
    | classDef =>
      rw [entryOf_class scopes index rest keyword]
      simp [Entry.definition?, Class.definition, classEntry, ScannedLine.definition, definedName,
        keyword]
    | functionDef =>
      rw [entryOf_function scopes index rest keyword]
      simp [Entry.definition?, Function.definition, functionEntry, ScannedLine.definition,
        definedName, keyword]

end

/-- The scopes around do not decide which definitions are reported. -/
theorem entriesFrom_definitions (scopes : List Scope) (index : Nat) (lines : List ScannedLine) :
    (entriesFrom scopes index lines).filterMap Entry.definition? = definitionsFrom index lines := by
  induction lines generalizing scopes index with
  | nil => rfl
  | cons l rest ih =>
    unfold entriesFrom definitionsFrom
    split
    next code =>
      dsimp only
      rw [List.filterMap_append, ih, entryOf_definition]
      simp only [isHeader, code, Bool.true_and]
      split <;> rfl
    next noCode =>
      rw [ih]
      simp [isHeader, noCode]

/-! ### Lines of a definition -/

theorem lineNumber_toNat {i : Nat} (small : i + 1 < UInt32.size) : (lineNumber i).toNat = i + 1 :=
  UInt32.toNat_ofNat_of_lt' small

theorem bodyOf_length_le (indent : Nat) (rest : List ScannedLine) :
    (bodyOf indent rest).length ≤ rest.length := by
  unfold bodyOf
  rw [List.length_reverse]
  refine Nat.le_trans (List.dropWhile_sublist _).length_le ?_
  rw [List.length_reverse]
  exact (List.takeWhile_sublist _).length_le

/-! ### Scanning in parts -/

theorem scanFrom_append (opened : Option TripleQuote) (a b : List String) :
    scanFrom opened (a ++ b) =
      ((scanFrom opened a).1 ++ (scanFrom (scanFrom opened a).2 b).1,
        (scanFrom (scanFrom opened a).2 b).2) := by
  induction a generalizing opened with
  | nil => rfl
  | cons line rest ih => simp only [List.cons_append, scanFrom, ih]

theorem scanFrom_length (opened : Option TripleQuote) (lines : List String) :
    (scanFrom opened lines).1.length = lines.length := by
  induction lines generalizing opened with
  | nil => rfl
  | cons line rest ih => simp only [scanFrom, List.length_cons, ih]

/-- The scanned lines from an index on are the lines from there on, scanned in the state that the
lines before have left. -/
theorem scanFrom_drop (opened : Option TripleQuote) (lines : List String) (i : Nat) :
    (scanFrom opened lines).1.drop i =
      (scanFrom (scanFrom opened (lines.take i)).2 (lines.drop i)).1 := by
  induction lines generalizing opened i with
  | nil => simp [scanFrom]
  | cons line rest ih =>
    cases i with
    | zero => rfl
    | succ i => simp only [scanFrom, List.drop_succ_cons, List.take_succ_cons, ih]

/-- What stands at an index of the scanned lines, and behind it. -/
theorem scanFrom_at {opened : Option TripleQuote} {lines : List String} {i : Nat}
    {l : ScannedLine} {rest : List ScannedLine}
    (found : (scanFrom opened lines).1.drop i = l :: rest) :
    ∃ line more, lines.drop i = line :: more ∧
      l = ofLine (scanFrom opened (lines.take i)).2 line ∧
      rest = (scanFrom (TripleQuote.after (scanFrom opened (lines.take i)).2 line) more).1 := by
  rw [scanFrom_drop] at found
  cases split : lines.drop i with
  | nil => simp [split, scanFrom] at found
  | cons line more =>
    rw [split] at found
    cases found
    exact ⟨line, more, rfl, rfl, rfl⟩

/-! ### Blocks -/

/-- A valid source has closed its strings and nests its blocks. -/
theorem read_valid {source : String} (valid : (Outline.read source).valid = true) :
    (scan (SourceText.ofText source)).2 = none ∧
      wellNested (scan (SourceText.ofText source)).1 = true ∧
      Outline.read source = ofEntries (entriesFrom [] 0 (scan (SourceText.ofText source)).1) := by
  unfold Outline.read at valid ⊢
  dsimp only at valid ⊢
  split at valid
  next sound =>
    rw [if_pos sound]
    simp only [Bool.and_eq_true, Option.isNone_iff_eq_none] at sound
    exact ⟨sound.1, sound.2, rfl⟩
  next => cases valid

theorem mem_definitions_read {source : String} (valid : (Outline.read source).valid = true)
    {d : Definition} :
    d ∈ (Outline.read source).definitions ↔
      ∃ i l rest, (scan (SourceText.ofText source)).1.drop i = l :: rest ∧
        l.isHeader = true ∧ d = l.definition i rest := by
  rw [(read_valid valid).2.2, mem_definitions_ofEntries, entriesFrom_definitions,
    mem_definitionsFrom]
  simp only [Nat.zero_add]

theorem enter_head {stack next : List Nat} {expected : Bool} {indent : Nat}
    (entered : enter stack expected indent = some next) : next.head? = some indent := by
  unfold enter at entered
  dsimp only at entered
  split at entered
  · split at entered
    · cases entered
    · cases entered
      rfl
  · split at entered
    · cases entered
    · split at entered
      next top =>
        cases entered
        exact top
      next => cases entered

theorem enter_expected {stack next : List Nat} {indent : Nat}
    (entered : enter stack true indent = some next) : stack.head?.getD 0 < indent := by
  unfold enter at entered
  simp only [if_true] at entered
  split at entered
  · cases entered
  next deeper => exact Nat.lt_of_not_le deeper

theorem nestedFrom_cons {stack : List Nat} {expected : Bool} {l : ScannedLine}
    {rest : List ScannedLine} (nested : nestedFrom stack expected (l :: rest) = true) :
    ∃ next, enter stack expected l.indent = some next ∧
      (l.keyword?.isSome = true → l.opensBlock = true) ∧
      nestedFrom next l.opensBlock rest = true := by
  unfold nestedFrom at nested
  split at nested
  next => cases nested
  next next entered =>
    split at nested
    next => cases nested
    next colon =>
      refine ⟨next, entered, ?_, nested⟩
      intro keyword
      simpa [keyword] using colon

theorem nestedFrom_of_enter {stack next : List Nat} {expected : Bool} {l : ScannedLine}
    {rest : List ScannedLine} (entered : enter stack expected l.indent = some next)
    (colon : l.keyword?.isSome = true → l.opensBlock = true)
    (nested : nestedFrom next l.opensBlock rest = true) :
    nestedFrom stack expected (l :: rest) = true := by
  have keyword : (l.keyword?.isSome && !l.opensBlock) = false := by
    cases some : l.keyword?.isSome with
    | false => rfl
    | true => simp [colon some]
  simp only [nestedFrom, entered, keyword, nested, Bool.false_eq_true, if_false]

theorem enter_block {stack next : List Nat} {indent : Nat}
    (entered : enter stack true indent = some next) : next = indent :: stack := by
  unfold enter at entered
  simp only [if_true] at entered
  split at entered
  next => cases entered
  next => exact (Option.some.inj entered).symm

/-- A line that continues stands at one of the open columns. -/
theorem enter_line {stack next : List Nat} {indent : Nat}
    (entered : enter stack false indent = some next) :
    indent ≤ stack.head?.getD 0 ∧ (stack.dropWhile (indent < ·)).head? = some indent := by
  simp only [enter, Bool.false_eq_true, if_false] at entered
  by_cases deeper : stack.head?.getD 0 < indent
  · rw [if_pos deeper] at entered
    cases entered
  · rw [if_neg deeper] at entered
    refine ⟨Nat.le_of_not_lt deeper, ?_⟩
    by_contra other
    rw [if_neg other] at entered
    cases entered

theorem enter_remaining {stack next : List Nat} {indent : Nat}
    (entered : enter stack false indent = some next) : next = stack.dropWhile (indent < ·) := by
  obtain ⟨within, found⟩ := enter_line entered
  simp only [enter, Bool.false_eq_true, if_false, if_neg (Nat.not_lt.mpr within), if_pos found]
    at entered
  exact (Option.some.inj entered).symm

theorem enter_same (stack : List Nat) (indent : Nat) :
    enter (indent :: stack) false indent = some (indent :: stack) := by
  simp [enter]

theorem nestedFrom_append {before rest : List ScannedLine} {stack : List Nat} {expected : Bool}
    (nested : nestedFrom stack expected (before ++ rest) = true) :
    ∃ stack expected, nestedFrom stack expected rest = true := by
  induction before generalizing stack expected with
  | nil => exact ⟨stack, expected, nested⟩
  | cons l before ih =>
    obtain ⟨_, _, _, later⟩ := nestedFrom_cons nested
    exact ih later

/-- What a line of code in well nested lines is followed by. -/
theorem wellNested_at {before rest : List ScannedLine} {l : ScannedLine}
    (nested : wellNested (before ++ l :: rest) = true) (code : l.isCode = true) :
    (l.keyword?.isSome = true → l.opensBlock = true) ∧
      ∃ stack, stack.head? = some l.indent ∧
        nestedFrom stack l.opensBlock (rest.filter isCode) = true := by
  unfold wellNested at nested
  rw [List.filter_append, List.filter_cons_of_pos code] at nested
  obtain ⟨stack, expected, here⟩ := nestedFrom_append nested
  obtain ⟨next, entered, colon, later⟩ := nestedFrom_cons here
  exact ⟨colon, next, enter_head entered, later⟩

theorem wellNested_header {before rest : List ScannedLine} {l : ScannedLine}
    (nested : wellNested (before ++ l :: rest) = true) (header : l.isHeader = true) :
    l.opensBlock = true := by
  unfold isHeader at header
  simp only [Bool.and_eq_true] at header
  exact (wellNested_at nested header.1).1 header.2

/-- The code behind a line that opens a block is deeper. -/
theorem wellNested_deeper {before rest : List ScannedLine} {l next : ScannedLine}
    (nested : wellNested (before ++ l :: rest) = true) (code : l.isCode = true)
    (opens : l.opensBlock = true) (follows : rest.find? isCode = some next) :
    l.indent < next.indent := by
  obtain ⟨_, stack, top, later⟩ := wellNested_at nested code
  rw [opens] at later
  rw [← List.head?_filter] at follows
  cases lines : rest.filter isCode with
  | nil => simp [lines] at follows
  | cons first others =>
    rw [lines] at later follows
    obtain rfl : first = next := by simpa using follows
    obtain ⟨_, entered, _⟩ := nestedFrom_cons later
    simpa [top] using enter_expected entered

end ScannedLine

end AutoDoc
