import AutoDoc.Proofs.Outline.Scopes
import Mathlib.Data.List.Chain
import Mathlib.Data.List.Induction

/-!
# The lines around a line

A line of code is open until a line of code follows that is not deeper. The open lines are kept
innermost first (`openLines`), and those around a line are the ones that it is deeper than
(`around`). In valid code each of them opens a block, and the stack of the reader holds the
indentations of the open lines (`Tracks`). So a line stands directly in the block of the innermost
line around it, that one in the block of the next, and so on down to a line without indentation
(`climbs_around`).

The headers among the lines around a header are those of the definitions around it
(`Header.enclosing_lines`).
-/

namespace AutoDoc.ScannedLine

open Outline

/-! ### Open lines -/

/-- The lines around `l`, of those that are open in front of it. -/
def around (opened : List ScannedLine) (l : ScannedLine) : List ScannedLine :=
  opened.dropWhile (l.indent ≤ ·.indent)

/-- The lines that are open behind `l`. -/
def openBehind (opened : List ScannedLine) (l : ScannedLine) : List ScannedLine :=
  if l.isCode then l :: around opened l else opened

/-- The lines that are open behind some lines, innermost first. -/
def openLines (lines : List ScannedLine) : List ScannedLine := lines.foldl openBehind []

section

variable {lines : List ScannedLine} {l x : ScannedLine}

theorem openLines_concat (lines : List ScannedLine) (l : ScannedLine) :
    openLines (lines ++ [l]) = openBehind (openLines lines) l := by
  rw [openLines, List.foldl_append]
  rfl

theorem openLines_code (code : l.isCode = true) :
    openLines (lines ++ [l]) = l :: around (openLines lines) l := by
  rw [openLines_concat, openBehind, if_pos code]

theorem openLines_skip (noCode : l.isCode = false) :
    openLines (lines ++ [l]) = openLines lines := by
  rw [openLines_concat, openBehind, noCode]
  rfl

/-- Of open lines the inner one is deeper. -/
theorem openLines_inward (lines : List ScannedLine) :
    (openLines lines).Pairwise fun a b => b.indent < a.indent := by
  induction lines using List.reverseRecOn with
  | nil => exact List.Pairwise.nil
  | append_singleton lines l ih =>
    cases code : l.isCode with
    | false => rwa [openLines_skip code]
    | true =>
      rw [openLines_code code, List.pairwise_cons]
      exact ⟨fun a member => ((mem_dropWhile ih l.indent a).mp member).2,
        ih.sublist (List.dropWhile_sublist _)⟩

theorem mem_around :
    x ∈ around (openLines lines) l ↔ x ∈ openLines lines ∧ x.indent < l.indent :=
  mem_dropWhile (openLines_inward lines) l.indent x

/-- The lines of code that all code behind them is deeper than are open. -/
theorem mem_openLines :
    x ∈ openLines lines ↔ x.isCode = true ∧ ∃ before behind, lines = before ++ x :: behind ∧
      ∀ y ∈ behind, y.isCode = true → x.indent < y.indent := by
  induction lines using List.reverseRecOn with
  | nil => simp [openLines]
  | append_singleton lines l ih =>
    have step : x ∈ openLines (lines ++ [l]) ↔ (l.isCode = true ∧ x = l) ∨
        (x ∈ openLines lines ∧ (l.isCode = true → x.indent < l.indent)) := by
      cases code : l.isCode with
      | false => simp [openLines_skip code]
      | true => simp [openLines_code code, mem_around]
    rw [step, ih]
    constructor
    · rintro (⟨code, rfl⟩ | ⟨⟨code, before, behind, rfl, deeper⟩, last⟩)
      · exact ⟨code, lines, [], rfl, by simp⟩
      · refine ⟨code, before, behind ++ [l], by simp, fun y member => ?_⟩
        rcases List.mem_append.mp member with within | isLast
        · exact deeper y within
        · rwa [List.mem_singleton.mp isLast]
    · rintro ⟨code, before, behind, split, deeper⟩
      rcases List.eq_nil_or_concat behind with rfl | ⟨more, y, rfl⟩
      · obtain ⟨_, same⟩ := List.append_inj' split rfl
        obtain rfl : l = x := by simpa using same
        exact Or.inl ⟨code, rfl⟩
      · rw [List.concat_eq_append, ← List.cons_append, ← List.append_assoc] at split
        obtain ⟨rfl, same⟩ := List.append_inj' split rfl
        obtain rfl : l = y := by simpa using same
        rw [List.concat_eq_append] at deeper
        exact Or.inr ⟨⟨code, before, more, rfl, fun y within => deeper y (by simp [within])⟩,
          deeper l (by simp)⟩

end

/-! ### Blocks around a line -/

/-- Lines from the innermost one on, each directly in a block that the next one opens, down to one
without indentation. `Deeper` relates the indentation of a block to that of the line that opens
it. -/
inductive Climbs (Deeper : Nat → Nat → Prop) : List ScannedLine → Prop where
  | ground {l : ScannedLine} (level : l.indent = 0) : Climbs Deeper [l]
  | step {l a : ScannedLine} {outer : List ScannedLine} (opens : a.opensBlock = true)
      (less : a.indent < l.indent) (deeper : Deeper a.indent l.indent)
      (climbs : Climbs Deeper (a :: outer)) : Climbs Deeper (l :: a :: outer)

section

variable {Deeper : Nat → Nat → Prop} {l p : ScannedLine} {opened outer : List ScannedLine}

theorem Climbs.opensBlock (climbs : Climbs Deeper (l :: outer)) :
    ∀ x ∈ outer, x.opensBlock = true := by
  generalize all : l :: outer = lines at climbs
  induction climbs generalizing l outer with
  | ground => cases all; simp
  | step opens _ _ _ ih =>
    cases all
    exact List.forall_mem_cons.mpr ⟨opens, ih rfl⟩

/-- With blocks that are deeper by a width the indentation counts the lines around. -/
theorem Climbs.indent_eq {width : Nat}
    (climbs : Climbs (fun a b => b = a + width) (l :: outer)) :
    l.indent = width * outer.length := by
  generalize all : l :: outer = lines at climbs
  induction climbs generalizing l outer with
  | ground level => cases all; simpa using level
  | step _ _ deeper _ ih =>
    cases all
    rw [deeper, ih rfl, List.length_cons, Nat.mul_succ]

/-- A line that goes on in one of the open blocks stands in the blocks around that one. -/
theorem Climbs.back (climbs : Climbs Deeper opened)
    (found : ((opened.map (·.indent)).dropWhile (l.indent < ·)).head? = some l.indent) :
    Climbs Deeper (l :: around opened l) ∧
      (opened.map (·.indent)).dropWhile (l.indent < ·) =
        (l :: around opened l).map (·.indent) := by
  induction climbs with
  | @ground p level =>
    have same : p.indent = l.indent := by simpa [level] using found
    have out : around [p] l = [] := by simp [around, same]
    rw [out]
    exact ⟨.ground (same ▸ level), by simp [same]⟩
  | @step p a outer opens less deeper climbs ih =>
    rw [List.map_cons] at found ⊢
    by_cases left : l.indent < p.indent
    · have out : around (p :: a :: outer) l = around (a :: outer) l :=
        List.dropWhile_cons_of_pos (by simpa using Nat.le_of_lt left)
      rw [List.dropWhile_cons_of_pos (by simpa using left)] at found ⊢
      rw [out]
      exact ih found
    · rw [List.dropWhile_cons_of_neg (by simpa using left)] at found ⊢
      have same : p.indent = l.indent := by simpa using found
      have out : around (p :: a :: outer) l = a :: outer := by
        rw [around, List.dropWhile_cons_of_pos (by simp [same]),
          List.dropWhile_cons_of_neg (by simpa [← same] using less)]
      rw [out]
      exact ⟨.step opens (same ▸ less) (same ▸ deeper) climbs, by simp [same]⟩

/-- The stack of the reader, and whether a block has to start, told from the open lines. -/
inductive Tracks (Deeper : Nat → Nat → Prop) : List Nat → Bool → List ScannedLine → Prop where
  | start : Tracks Deeper [0] false []
  | behind {p : ScannedLine} {outer : List ScannedLine} (climbs : Climbs Deeper (p :: outer)) :
    Tracks Deeper ((p :: outer).map (·.indent)) p.opensBlock (p :: outer)

/-- The open lines tell the stack again after the next line of code. -/
theorem Tracks.next {stack next : List Nat} {expected : Bool}
    (tracks : Tracks Deeper stack expected opened)
    (deeper : ∀ p ∈ opened.head?, p.opensBlock = true → Deeper p.indent l.indent)
    (entered : enter stack expected l.indent = some next) :
    Tracks Deeper next l.opensBlock (l :: around opened l) := by
  cases tracks with
  | start =>
    obtain ⟨within, _⟩ := enter_line entered
    have level : l.indent = 0 := by simpa using within
    rw [level] at entered
    obtain rfl : [0] = next := Option.some.inj ((enter_same [] 0).symm.trans entered)
    have tracks : Tracks Deeper [l.indent] l.opensBlock [l] := .behind (.ground level)
    rwa [level] at tracks
  | @behind p outer climbs =>
    cases opens : p.opensBlock with
    | true =>
      rw [opens] at entered
      have less : p.indent < l.indent := by simpa using enter_expected entered
      have out : around (p :: outer) l = p :: outer :=
        List.dropWhile_cons_of_neg (by simpa using less)
      rw [enter_block entered, out]
      exact .behind (.step opens less (deeper p rfl opens) climbs)
    | false =>
      rw [opens] at entered
      obtain ⟨climbs, indents⟩ := climbs.back (enter_line entered).2
      rw [enter_remaining entered, indents]
      exact .behind climbs

end

section

variable {Deeper : Nat → Nat → Prop} {before rest : List ScannedLine} {l : ScannedLine}

/-- The last line of code is the innermost open line. -/
theorem openLines_head (lines : List ScannedLine) :
    (openLines lines).head? = (lines.filter isCode).getLast? := by
  induction lines using List.reverseRecOn with
  | nil => rfl
  | append_singleton lines l ih =>
    cases code : l.isCode with
    | false => simp [openLines_skip code, code, ih]
    | true => simp [openLines_code code, code]

/-- In front of every line the open lines tell the stack of the reader. -/
theorem tracks_openLines (nested : wellNested (before ++ rest) = true)
    (spaced : ((before ++ rest).filter isCode).IsChain fun p l =>
      p.opensBlock = true → Deeper p.indent l.indent) :
    ∃ stack expected, Tracks Deeper stack expected (openLines before) ∧
      nestedFrom stack expected (rest.filter isCode) = true := by
  induction before using List.reverseRecOn generalizing rest with
  | nil => exact ⟨[0], false, .start, nested⟩
  | append_singleton before l ih =>
    rw [List.append_assoc, List.singleton_append] at nested spaced
    obtain ⟨stack, expected, tracks, goesOn⟩ := ih nested spaced
    cases code : l.isCode with
    | false =>
      rw [List.filter_cons_of_neg (by simp [code])] at goesOn
      exact ⟨stack, expected, by rwa [openLines_skip code], goesOn⟩
    | true =>
      rw [List.filter_cons_of_pos code] at goesOn
      rw [List.filter_append, List.filter_cons_of_pos code, List.isChain_append] at spaced
      obtain ⟨next, entered, _, later⟩ := nestedFrom_cons goesOn
      refine ⟨next, l.opensBlock, ?_, later⟩
      rw [openLines_code code]
      refine tracks.next (fun p first => spaced.2.2 p ?_ l rfl) entered
      rwa [← openLines_head]

/-- In valid code a line climbs over the lines around it. -/
theorem climbs_around (nested : wellNested (before ++ l :: rest) = true)
    (spaced : ((before ++ l :: rest).filter isCode).IsChain fun p l =>
      p.opensBlock = true → Deeper p.indent l.indent) (code : l.isCode = true) :
    Climbs Deeper (l :: around (openLines before) l) := by
  rw [← List.singleton_append, ← List.append_assoc] at nested spaced
  obtain ⟨stack, expected, tracks, _⟩ := tracks_openLines nested spaced
  rw [openLines_code code] at tracks
  cases tracks with
  | behind climbs => exact climbs

/-- In valid code every line around a line opens a block. -/
theorem opensBlock_of_mem_around (nested : wellNested (before ++ l :: rest) = true)
    (code : l.isCode = true) : ∀ x ∈ around (openLines before) l, x.opensBlock = true := by
  have climbs : Climbs (fun _ _ => True) (l :: around (openLines before) l) :=
    climbs_around nested (List.pairwise_of_forall fun _ _ _ => trivial).isChain code
  exact climbs.opensBlock

end

/-! ### Headers around a header -/

section

variable {lines : List ScannedLine} {h : Header}

/-- The headers among the lines around a line remain of those among the open lines. -/
theorem headers_around {opened : List Header} {before : List ScannedLine} {l : ScannedLine}
    (headers : opened.map (·.line) = (openLines before).filter isHeader) :
    (opened.dropWhile (l.indent ≤ ·.line.indent)).map (·.line) =
      (around (openLines before) l).filter isHeader := by
  have inward := openLines_inward before
  rw [around, dropWhile_eq_filter inward, List.filter_comm,
    ← dropWhile_eq_filter (inward.filter isHeader), ← headers]
  rw [List.dropWhile_map]
  rfl

/-- The open scopes are those of the open lines that are headers. -/
theorem scoped_openLines {j : Nat} (within : j ≤ lines.length) :
    ∃ opened, Scoped lines j opened ∧
      opened.map (·.line) = (openLines (lines.take j)).filter isHeader := by
  induction j with
  | zero => exact ⟨[], Scoped.start lines, by simp [openLines]⟩
  | succ j ih =>
    obtain ⟨opened, scopes, headers⟩ := ih (Nat.le_of_succ_le within)
    obtain ⟨l, rest, found⟩ : ∃ l rest, lines.drop j = l :: rest :=
      List.exists_cons_of_ne_nil (by simpa using Nat.lt_of_succ_le within)
    have upTo : lines.take (j + 1) = lines.take j ++ [l] := by
      rw [List.take_add_one, ← List.head?_drop, found]
      rfl
    rw [upTo]
    cases code : l.isCode with
    | false =>
      refine ⟨opened, scopes.skip found code, ?_⟩
      rw [openLines_skip code, headers]
    | true =>
      rw [openLines_code code]
      cases header : l.isHeader with
      | false =>
        refine ⟨_, scopes.pass found code header, ?_⟩
        rw [headers_around headers, List.filter_cons_of_neg (by simp [header])]
      | true =>
        refine ⟨_, scopes.enter found header, ?_⟩
        rw [List.map_cons, headers_around headers, List.filter_cons_of_pos header]

/-- The headers among the lines around a header are those of the definitions around it. -/
theorem Header.enclosing_lines (place : h.At lines) :
    (h.enclosing lines).map (·.line) =
      (around (openLines (lines.take h.index)) h.line).filter isHeader := by
  have within : h.index ≤ lines.length :=
    Nat.le_trans (Nat.le_add_right _ _) (Nat.le_of_lt place.last_lt)
  obtain ⟨opened, scopes, headers⟩ := scoped_openLines within
  rw [← headers_around headers, scopes.enclosing_eq place]

end

end AutoDoc.ScannedLine
