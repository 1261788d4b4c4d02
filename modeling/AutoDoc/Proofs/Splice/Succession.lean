import AutoDoc.Proofs.Splice.Tracking
import AutoDoc.Proofs.Text.Stringless

/-!
# One block behind another

A block that is one string is passed over by the next search for the body: its first line opens a
string, no line between closes it, its last line does (`Closed.bodyOffset_append`). So a second
splice at the same definition finds the body line that the first one found and puts its block in
front of it, behind the first block (`splice_behind_block`).
-/

namespace AutoDoc.Splice

/-- Lines without a body are passed over, with the state that they leave. -/
theorem bodyOffset_append {inString : Bool} {front : List String}
    (passed : bodyOffset inString front = none) (rest : List String) :
    bodyOffset inString (front ++ rest) =
      (bodyOffset (openBehind inString front) rest).map (front.length + ·) := by
  induction front generalizing inString with
  | nil => simp
  | cons line front ih =>
    rw [bodyOffset_cons] at passed
    rw [List.cons_append, bodyOffset_cons]
    split at passed
    next => cases passed
    next text =>
      rw [if_neg text, ih (Option.map_eq_none_iff.mp passed), Option.map_map, openBehind_cons]
      congr 1
      funext n
      simp only [Function.comp_apply, List.length_cons]
      omega

/-- In front of the body no line is one of text and no string is open; the body is found at once. -/
theorem bodyOffset_split {inString : Bool} {lines : List String} {k : Nat}
    (found : bodyOffset inString lines = some k) :
    bodyOffset inString (lines.take k) = none ∧ openBehind inString (lines.take k) = false ∧
      bodyOffset false (lines.drop k) = some 0 := by
  induction lines generalizing inString k with
  | nil => cases found
  | cons line rest ih =>
    have step := bodyOffset_cons inString line rest
    rw [found] at step
    split at step
    next text =>
      cases step
      obtain ⟨_, rfl, _⟩ := id text
      exact ⟨rfl, rfl, found⟩
    next passed =>
      obtain ⟨n, inRest, rfl⟩ := Option.map_eq_some_iff.mp step.symm
      obtain ⟨noBody, shut, here⟩ := ih inRest
      refine ⟨?_, shut, here⟩
      rw [List.take_succ_cons, bodyOffset_cons, if_neg passed, noBody]
      rfl

/-- The lines of a block that is one string: the delimiter stands alone on the first and on the
last, no triple quote stands between, and some line between is neither blank nor made of quotes. -/
structure Closed (block : List String) : Prop where
  parts : ∃ first inner last, block = first :: inner ++ [last] ∧
    Text.trim first = TripleQuote.double.text ∧ Text.trim last = TripleQuote.double.text ∧
    (∀ line ∈ inner, TripleQuote.Absent line) ∧ ∃ line ∈ inner, isDisposable line = false

theorem track_open {line : String} (absent : TripleQuote.Absent line) : track true line = true := by
  simp [track, closesString, absent.trim.isOdd]

/-- Lines without triple quotes leave a string open, and none of them is a line of text. -/
theorem inside_of_absent {inner : List String} (absent : ∀ line ∈ inner, TripleQuote.Absent line) :
    bodyOffset true inner = none ∧ openBehind true inner = true := by
  induction inner with
  | nil => exact ⟨rfl, rfl⟩
  | cons line rest ih =>
    obtain ⟨noBody, inside⟩ := ih fun x member => absent x (List.mem_cons_of_mem _ member)
    have stays := track_open (absent line List.mem_cons_self)
    rw [bodyOffset_cons, if_neg (by simp [IsText]), stays, noBody, openBehind_cons, stays, inside]
    exact ⟨rfl, rfl⟩

theorem track_delimiter {line : String} (alone : Text.trim line = TripleQuote.double.text)
    (inString : Bool) : track inString line = !inString := by
  rw [track, alone]
  cases inString <;> decide

/-- A search for text passes over a closed block and finds no string open behind it. -/
theorem Closed.passed {block : List String} (closed : Closed block) :
    bodyOffset false block = none ∧ openBehind false block = false := by
  obtain ⟨first, inner, last, rfl, opening, closing, absent, _⟩ := closed.parts
  have opens : track false first = true := track_delimiter opening false
  have closes : track true last = false := track_delimiter closing true
  obtain ⟨noBody, inside⟩ := inside_of_absent absent
  have ends : bodyOffset true [last] = none := by
    rw [bodyOffset_cons, if_neg (by simp [IsText])]
    rfl
  rw [List.cons_append, bodyOffset_cons, if_neg (by simp [IsText, opens]), opens,
    bodyOffset_append noBody, inside, ends, openBehind_cons, opens, openBehind_append, inside,
    openBehind_cons, closes]
  exact ⟨rfl, rfl⟩

/-- Behind a closed block and an empty line the search for the body is where it was in front. -/
theorem Closed.bodyOffset_append {block : List String} (closed : Closed block)
    (rest : List String) :
    bodyOffset false (block ++ [""] ++ rest) =
      (bodyOffset false rest).map (block.length + 1 + ·) := by
  obtain ⟨noBody, shut⟩ := closed.passed
  have empty : bodyOffset false ([""] ++ rest) = (bodyOffset false rest).map (· + 1) := by
    rw [List.singleton_append, bodyOffset_cons]
    rfl
  rw [List.append_assoc, Splice.bodyOffset_append noBody, shut, empty, Option.map_map]
  congr 1
  funext n
  simp only [Function.comp_apply]
  omega

theorem Closed.keeps {block : List String} (closed : Closed block) :
    ∃ line ∈ block, isDisposable line = false := by
  obtain ⟨first, inner, last, rfl, _, _, _, line, member, text⟩ := closed.parts
  exact ⟨line, by simp [member], text⟩

/-- A splice that reports where the block stands has found a body. Its edit lies between the
signature and the body. -/
theorem splice_inserted {s : SourceText} {startLine endLine i : Nat} {block : List String}
    (inserted : (s.splice startLine endLine block).1 = .inserted i) :
    ∃ sig body, findSignature s (startLine - 1) endLine = some sig ∧ findBody s sig = some body ∧
      sig < i ∧ (i = sig + 1 ∨ i = body) ∧
      (s.splice startLine endLine block).2 =
        ⟨s.lines.take i ++ (block ++ [""]) ++ s.lines.drop body⟩ := by
  cases found : findSignature s (startLine - 1) endLine with
  | none =>
    rw [SourceText.splice_of_none found] at inserted
    cases inserted
  | some sig =>
    rw [SourceText.splice_of_some found] at inserted ⊢
    cases body : findBody s sig with
    | none =>
      rw [report, body] at inserted
      cases inserted
    | some j =>
      rw [report, body] at inserted
      obtain rfl : place s sig = i := by simpa using inserted
      have ends := skippedEnd_of_body body
      refine ⟨sig, j, rfl, body, lt_place s sig, ?_, by rw [ends]⟩
      unfold place
      split
      · exact Or.inl rfl
      · exact Or.inr ends

/-- Where a line in front of the body has to stay, the block goes between that line and the body. -/
theorem splice_of_kept {s : SourceText} {startLine endLine sig body : Nat}
    (found : findSignature s (startLine - 1) endLine = some sig)
    (atBody : findBody s sig = some body)
    (kept : ∃ line ∈ (s.lines.take body).drop (sig + 1), isDisposable line = false)
    (block : List String) :
    s.splice startLine endLine block =
      (.inserted body, ⟨s.lines.take body ++ (block ++ [""]) ++ s.lines.drop body⟩) := by
  have ends := skippedEnd_of_body atBody
  have behind : place s sig = body := by
    rw [place, if_neg, ends]
    rw [Bool.not_eq_true, List.all_eq_false, skipped, ends]
    obtain ⟨line, member, text⟩ := kept
    exact ⟨line, member, by simp [text]⟩
  rw [SourceText.splice_of_some found, report, atBody, behind, ends]
  rfl

/-- The lines between a signature and the place of the block are passed over, and they leave no
string open: they are none, or all those in front of the body. -/
theorem kept_passed {s : SourceText} {sig n i : Nat}
    (offset : bodyOffset false (s.lines.drop (sig + 1)) = some n)
    (place : i = sig + 1 ∨ i = sig + 1 + n) :
    bodyOffset false ((s.lines.take i).drop (sig + 1)) = none ∧
      openBehind false ((s.lines.take i).drop (sig + 1)) = false := by
  rcases place with rfl | rfl
  · rw [List.drop_eq_nil_of_le (by simp)]
    exact ⟨rfl, rfl⟩
  · obtain ⟨noBody, shut, _⟩ := bodyOffset_split offset
    rw [List.take_drop] at noBody shut
    exact ⟨noBody, shut⟩

/-- A closed block behind lines that are passed over, in front of a line of text: this line is the
body. -/
theorem Closed.findBody {block front rest : List String} (closed : Closed block) {sig : Nat}
    (behind : sig < front.length) (noBody : bodyOffset false (front.drop (sig + 1)) = none)
    (shut : openBehind false (front.drop (sig + 1)) = false)
    (here : bodyOffset false rest = some 0) :
    Splice.findBody ⟨front ++ (block ++ [""]) ++ rest⟩ sig =
      some (front.length + block.length + 1) := by
  have lines : (front ++ (block ++ [""]) ++ rest).drop (sig + 1) =
      front.drop (sig + 1) ++ (block ++ [""] ++ rest) := by
    rw [List.append_assoc, List.drop_append_of_le_length behind]
  rw [Splice.findBody, lines, Splice.bodyOffset_append noBody, shut, closed.bodyOffset_append, here]
  simp only [Option.map_some, List.length_drop]
  congr 1
  omega

end AutoDoc.Splice

namespace AutoDoc.SourceText

open Splice

/-- The splicer skips its own blocks. If a closed block was put at an index, the next search from
the same signature finds the body line that was found before, which now stands behind the block and
its empty line, and a second block goes there: behind the first one, whose lines all stay. -/
theorem splice_behind_block {s : SourceText} {startLine endLine i : Nat} {block : List String}
    (closed : Closed block)
    (inserted : (s.splice startLine endLine block).1 = .inserted i) :
    let spliced := (s.splice startLine endLine block).2
    let next := i + block.length + 1
    ∃ sig body, findSignature s (startLine - 1) endLine = some sig ∧ findBody s sig = some body ∧
      findSignature spliced (startLine - 1) endLine = some sig ∧
      findBody spliced sig = some next ∧
      (∃ line, s.line? body = some line ∧ spliced.line? next = some line) ∧
      ∀ other, spliced.splice startLine endLine other =
        (.inserted next,
          ⟨s.lines.take i ++ block ++ [""] ++ other ++ [""] ++ s.lines.drop body⟩) := by
  intro spliced next
  obtain ⟨sig, body, found, atBody, behind, place, text⟩ := splice_inserted inserted
  obtain ⟨above, inside⟩ := findBody_bounds atBody
  obtain ⟨n, offset, rfl⟩ := Option.map_eq_some_iff.mp atBody
  obtain ⟨noBody, shut⟩ := kept_passed offset place
  obtain ⟨_, _, here⟩ := bodyOffset_split offset
  rw [List.drop_drop] at here
  have front : (s.lines.take i).length = i := by
    rw [List.length_take]
    unfold SourceText.size at inside
    omega
  have lines : spliced.lines = s.lines.take i ++ (block ++ [""]) ++ s.lines.drop (sig + 1 + n) :=
    congrArg SourceText.lines text
  have length : (s.lines.take i ++ (block ++ [""])).length = next := by
    simp only [List.length_append, List.length_singleton, front, next]
    omega
  have upTo : spliced.lines.take next = s.lines.take i ++ (block ++ [""]) := by
    rw [lines, ← length, List.take_left]
  have rest : spliced.lines.drop next = s.lines.drop (sig + 1 + n) := by
    rw [lines, ← length, List.drop_left]
  have again : findSignature spliced (startLine - 1) endLine = some sig := by
    refine findSignature_congr found ?_
    rw [lines, List.append_assoc, List.take_append_of_le_length (by omega), List.take_take,
      Nat.min_eq_left (by omega)]
  have bodyAgain : findBody spliced sig = some next := by
    have searched := closed.findBody (by omega) noBody shut here
    rw [front, ← text] at searched
    exact searched
  have stays : ∃ line ∈ (spliced.lines.take next).drop (sig + 1), isDisposable line = false := by
    obtain ⟨line, member, text⟩ := closed.keeps
    refine ⟨line, ?_, text⟩
    rw [upTo, List.drop_append_of_le_length (by omega)]
    simp [member]
  refine ⟨sig, sig + 1 + n, found, atBody, again, bodyAgain, ?_, fun other => ?_⟩
  · have head := congrArg List.head? rest
    rw [List.head?_drop, List.head?_drop] at head
    exact ⟨s.lines[sig + 1 + n], List.getElem?_eq_getElem inside,
      head.trans (List.getElem?_eq_getElem inside)⟩
  · rw [splice_of_kept again bodyAgain stays, rest, upTo]
    simp

/-- Two blocks behind a string that is kept. -/
theorem splice_behind_block_kept :
    let s : SourceText := ⟨["def f():", "    '''", "    Kept.", "    '''", "    return 1"]⟩
    let block := ["\t\"\"\"", "\tFirst.", "\t\"\"\""]
    let other := ["\t\"\"\"", "\tSecond.", "\t\"\"\""]
    Closed block ∧ (s.splice 1 5 block).1 = .inserted 4 ∧
      (s.splice 1 5 block).2.splice 1 5 other = (.inserted 8, ⟨["def f():", "    '''", "    Kept.",
        "    '''", "\t\"\"\"", "\tFirst.", "\t\"\"\"", "", "\t\"\"\"", "\tSecond.", "\t\"\"\"", "",
        "    return 1"]⟩) := by
  intro s block other
  have closed : Closed block :=
    ⟨_, ["\tFirst."], _, rfl, by decide, by decide, by decide, _, List.mem_cons_self, by decide⟩
  have first : (s.splice 1 5 block).1 = .inserted 4 := by decide
  obtain ⟨sig, body, found, atBody, _, _, _, second⟩ := splice_behind_block closed first
  have signature : findSignature s 0 5 = some 0 := by decide
  obtain rfl : 0 = sig := Option.some.inj (signature.symm.trans found)
  have bodyLine : findBody s 0 = some 4 := by decide
  obtain rfl : 4 = body := Option.some.inj (bodyLine.symm.trans atBody)
  exact ⟨closed, first, second other⟩

end AutoDoc.SourceText
