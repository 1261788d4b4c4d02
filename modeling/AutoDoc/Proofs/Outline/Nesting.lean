import AutoDoc.Proofs.Outline.Fulfilled
import AutoDoc.Proofs.Revision.Placement
import AutoDoc.Proofs.Text.Stringless

/-!
# Nesting with blocks put in

Behind some lines that open a block another line of code, its lead, is put in front of the block.
The lines stay well nested just if every lead has the indentation of the block it leads
(`nested_led_iff`). For a text with documentation blocks under some of its lines this is what the
scan sees: of each block only the opening delimiter is code (`scanFrom_underLines`).
-/

namespace AutoDoc.ScannedLine

open Outline Text

/-- A line of code that neither starts a definition nor opens a block. -/
structure IsLead (d : ScannedLine) : Prop where
  code : d.isCode = true
  plain : d.keyword? = none
  closed : d.opensBlock = false

/-- A lead that is indented like the block is passed over. -/
theorem nestedFrom_lead {stack : List Nat} {d y : ScannedLine} {rest : List ScannedLine}
    (lead : d.IsLead) (same : d.indent = y.indent)
    (nested : nestedFrom stack true (y :: rest) = true) :
    nestedFrom stack true (d :: y :: rest) = true := by
  obtain ⟨next, entered, colon, later⟩ := nestedFrom_cons nested
  obtain rfl := enter_block entered
  rw [← same] at entered later
  refine nestedFrom_of_enter entered (by simp [lead.plain]) ?_
  rw [lead.closed]
  exact nestedFrom_of_enter (same ▸ enter_same stack d.indent) colon later

/-- Only a lead that is indented like the block can be passed over. -/
theorem indent_of_nestedFrom_lead {stack : List Nat} {d y : ScannedLine} {rest : List ScannedLine}
    {outer : Nat} (lead : d.IsLead) (top : stack.head? = some outer) (deeper : outer < y.indent)
    (nested : nestedFrom stack true (d :: y :: rest) = true) : d.indent = y.indent := by
  obtain ⟨next, entered, _, later⟩ := nestedFrom_cons nested
  obtain rfl := enter_block entered
  rw [lead.closed] at later
  obtain ⟨_, second, _⟩ := nestedFrom_cons later
  obtain ⟨within, found⟩ := enter_line second
  simp only [List.head?_cons, Option.getD_some] at within
  by_contra differs
  -- The lead is left again, and the line around it is too far out.
  rw [List.dropWhile_cons_of_pos (by simpa using by omega)] at found
  cases stack with
  | nil => cases top
  | cons head more =>
    obtain rfl : head = outer := by simpa using top
    rw [List.dropWhile_cons_of_neg (by simpa using Nat.le_of_lt deeper)] at found
    simp only [List.head?_cons, Option.some.injEq] at found
    omega

/-! ### Leads behind some lines of code -/

/-- The code among lines from an index on, with leads behind some of it. -/
def led (leadAt : Nat → Option ScannedLine) : Nat → List ScannedLine → List ScannedLine
  | _, [] => []
  | i, l :: rest =>
    (if l.isCode then l :: (leadAt i).toList else []) ++ led leadAt (i + 1) rest

section

variable {leadAt : Nat → Option ScannedLine} {i : Nat} {l : ScannedLine} {rest : List ScannedLine}

theorem led_of_not_isCode (noCode : l.isCode = false) :
    led leadAt i (l :: rest) = led leadAt (i + 1) rest := by
  simp [led, noCode]

theorem led_of_isCode (code : l.isCode = true) :
    led leadAt i (l :: rest) = l :: ((leadAt i).toList ++ led leadAt (i + 1) rest) := by
  simp [led, code]

theorem led_append (before : List ScannedLine) :
    led leadAt i (before ++ rest) = led leadAt i before ++ led leadAt (i + before.length) rest := by
  induction before generalizing i with
  | nil => rfl
  | cons head tail ih =>
    rw [List.cons_append, led, led, ih, List.append_assoc, List.length_cons, Nat.add_right_comm,
      Nat.add_assoc]

/-- The first line of code stays first. -/
theorem led_first (leadAt : Nat → Option ScannedLine) (i : Nat) {first : ScannedLine}
    (found : rest.find? isCode = some first) :
    ∃ more, led leadAt i rest = first :: more := by
  induction rest generalizing i with
  | nil => cases found
  | cons head tail ih =>
    cases code : head.isCode with
    | false =>
      rw [List.find?_cons_of_neg (by simp [code])] at found
      rw [led_of_not_isCode code]
      exact ih (i + 1) found
    | true =>
      rw [List.find?_cons_of_pos code] at found
      cases found
      exact ⟨_, led_of_isCode code⟩

/-- Every lead stands behind a line of code that opens a block, and the block is deeper. -/
def LeadsBlocks (leadAt : Nat → Option ScannedLine) (lines : List ScannedLine) : Prop :=
  ∀ i d, leadAt i = some d → d.IsLead ∧ ∃ l rest next, lines.drop i = l :: rest ∧
    l.isCode = true ∧ l.opensBlock = true ∧ rest.find? isCode = some next ∧ l.indent < next.indent

/-- Every lead is indented like the block that it leads. -/
def Fits (leadAt : Nat → Option ScannedLine) (lines : List ScannedLine) : Prop :=
  ∀ i d, leadAt i = some d → ∀ l rest next, lines.drop i = l :: rest →
    rest.find? isCode = some next → d.indent = next.indent

/-- Blocks stay well nested if each gets a first line of its own depth. -/
theorem nestedFrom_led {stack : List Nat} {expected : Bool} {lines : List ScannedLine}
    (leads : ∀ j d, leadAt (i + j) = some d → d.IsLead ∧ ∃ l rest next, lines.drop j = l :: rest ∧
      l.opensBlock = true ∧ rest.find? isCode = some next ∧ d.indent = next.indent)
    (nested : nestedFrom stack expected (lines.filter isCode) = true) :
    nestedFrom stack expected (led leadAt i lines) = true := by
  induction lines generalizing stack expected i with
  | nil => exact nested
  | cons l rest ih =>
    have later : ∀ j d, leadAt (i + 1 + j) = some d → d.IsLead ∧ ∃ m behind next,
        rest.drop j = m :: behind ∧ m.opensBlock = true ∧ behind.find? isCode = some next ∧
          d.indent = next.indent := by
      intro j d here
      exact leads (j + 1) d (by rw [← here, Nat.add_assoc, Nat.add_comm 1])
    cases code : l.isCode with
    | false =>
      rw [led_of_not_isCode code]
      rw [List.filter_cons_of_neg (by simp [code])] at nested
      exact ih later nested
    | true =>
      rw [List.filter_cons_of_pos code] at nested
      obtain ⟨next, entered, colon, inside⟩ := nestedFrom_cons nested
      have inside := ih later inside
      rw [led_of_isCode code]
      refine nestedFrom_of_enter entered colon ?_
      cases here : leadAt i with
      | none => exact inside
      | some d =>
        obtain ⟨lead, m, behind, first, atHead, opens, follows, same⟩ := leads 0 d here
        cases atHead
        obtain ⟨more, starts⟩ := led_first leadAt (i + 1) follows
        rw [opens, starts] at inside ⊢
        exact nestedFrom_lead lead same inside

/-- With leads in front of some of its blocks, well nested code stays well nested just if every lead
is indented like its block. -/
theorem nested_led_iff {lines : List ScannedLine} (nested : wellNested lines = true)
    (leads : LeadsBlocks leadAt lines) :
    nestedFrom [0] false (led leadAt 0 lines) = true ↔ Fits leadAt lines := by
  constructor
  · intro stays i d here l rest next atLine follows
    obtain ⟨lead, m, behind, first, atSame, code, opens, found, deeper⟩ := leads i d here
    rw [atLine] at atSame
    cases atSame
    rw [follows] at found
    cases found
    rw [← List.take_append_drop i lines, atLine, led_append, led_of_isCode code] at stays
    have inside : i < lines.length := by
      by_contra beyond
      rw [List.drop_eq_nil_iff.mpr (Nat.le_of_not_lt beyond)] at atLine
      cases atLine
    rw [List.length_take, Nat.min_eq_left (Nat.le_of_lt inside), Nat.zero_add, here] at stays
    obtain ⟨stack, expected, atHeader⟩ := nestedFrom_append stays
    obtain ⟨around, entered, _, behindHeader⟩ := nestedFrom_cons atHeader
    obtain ⟨more, starts⟩ := led_first leadAt (i + 1) follows
    rw [opens, starts] at behindHeader
    exact indent_of_nestedFrom_lead lead (enter_head entered) deeper behindHeader
  · intro fits
    refine nestedFrom_led ?_ nested
    intro j d here
    rw [Nat.zero_add] at here
    obtain ⟨lead, l, rest, next, atLine, _, opens, follows, _⟩ := leads j d here
    exact ⟨lead, l, rest, next, atLine, opens, follows, fits j d here l rest next atLine follows⟩

/-! ### Blocks under lines -/

theorem isCode_of_isBlank {opened : Option TripleQuote} {line : String}
    (blank : Text.isBlank line = true) : (ofLine opened line).isCode = false := by
  have empty : trimChars line.toList = [] := trimChars_eq_nil.mpr blank
  simp [isCode, ofLine, isBlankOrComment, empty]

/-- The scan of a block and the empty line behind it finds one line of code and no open string. -/
structure LedBy (block : List String) (d : ScannedLine) : Prop where
  closes : (scanFrom none (block ++ [""])).2 = none
  code : (scanFrom none (block ++ [""])).1.filter isCode = [d]

/-- The opening delimiter of a block is its lead. -/
theorem IsBlock.ledBy {opening closing first : String} {inner : List String}
    (block : IsBlock opening closing first inner) :
    LedBy (opening :: (first :: inner) ++ [closing]) (ofLine none opening) := by
  obtain ⟨_, dark, _, _⟩ := ofLine_alone none block.opens
  have code : (ofLine none opening).isCode = true := by
    simp only [isCode, dark]
    rfl
  have inside : (scanFrom (some .double) (first :: inner)).1.filter isCode = [] := by
    rw [List.filter_eq_nil_iff]
    intro l member
    simp [isCode, (scanFrom_inside block.even).2 l member]
  have last : [ofLine (some .double) closing, ofLine none ""].filter isCode = [] := by
    rw [List.filter_cons_of_neg (by simp [isCode, ofLine]),
      List.filter_cons_of_neg (by simp [isCode_of_isBlank (show Text.isBlank "" = true from rfl)])]
    rfl
  refine ⟨?_, ?_⟩
  · rw [List.append_assoc, List.singleton_append, scanFrom_block_eq block]
  · rw [List.append_assoc, List.singleton_append, scanFrom_block_eq block,
      List.filter_cons_of_pos code, List.filter_append, inside, last]
    rfl

/-- A line with a delimiter alone can be a lead. -/
theorem isLead_of_alone {q : TripleQuote} {line : String} (alone : q.Alone line) :
    (ofLine none line).IsLead := by
  obtain ⟨trimmed, dark, plain, _⟩ := ofLine_alone none alone
  refine ⟨?_, plain, ?_⟩
  · simp only [isCode, dark]
    rfl
  · rw [opensBlock, trimmed]
    cases q <;> rfl

/-- What a scan sees of a text with blocks under some of its lines. -/
theorem scanFrom_underLines (blockAt : Nat → Option (List String))
    (lead : List String → ScannedLine) (behind : Bool) (i : Nat) {lines : List String}
    (absent : ∀ line ∈ lines, TripleQuote.Absent line)
    (blocks : ∀ j block, blockAt j = some block → LedBy block (lead block))
    (code : ∀ j line block, lines[j]? = some line → blockAt (i + j) = some block →
      (ofLine none line).isCode = true) :
    (scanFrom none (SourceText.underLines blockAt behind i lines)).2 = none ∧
      (scanFrom none (SourceText.underLines blockAt behind i lines)).1.filter isCode =
        led (fun j => (blockAt j).map lead) i (lines.map (ofLine none)) := by
  induction lines generalizing behind i with
  | nil => exact ⟨rfl, rfl⟩
  | cons line rest ih =>
    have outside := (absent line List.mem_cons_self).after none
    have later := fun inside => ih inside (i + 1)
      (fun x member => absent x (List.mem_cons_of_mem _ member))
      (fun j x block found here => code (j + 1) x block found
        (by rw [← here, Nat.add_assoc, Nat.add_comm 1]))
    rw [List.map_cons]
    cases stays : behind && Text.isBlank line with
    | true =>
      rw [Bool.and_eq_true] at stays
      rw [stays.1, SourceText.underLines_blank stays.2, led_of_not_isCode (isCode_of_isBlank stays.2)]
      exact later true
    | false =>
      cases here : blockAt i with
      | none =>
        obtain ⟨closes, seen⟩ := later false
        rw [SourceText.underLines_none stays here, scanFrom, outside]
        refine ⟨closes, ?_⟩
        rw [List.filter_cons, seen, led]
        cases (ofLine none line).isCode <;> simp [here]
      | some block =>
        obtain ⟨closes, seen⟩ := later true
        have header := code 0 line block rfl here
        have within := blocks i block here
        have parts : block ++ "" :: SourceText.underLines blockAt true (i + 1) rest =
            block ++ [""] ++ SourceText.underLines blockAt true (i + 1) rest := by simp
        rw [SourceText.underLines_some stays here, parts, scanFrom, outside, scanFrom_append,
          within.closes, led_of_isCode header]
        refine ⟨closes, ?_⟩
        rw [List.filter_cons_of_pos header, List.filter_append, within.code, seen, here]
        rfl

end

end AutoDoc.ScannedLine
