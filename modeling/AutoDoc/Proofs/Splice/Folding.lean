import AutoDoc.Proofs.Revision.Basic
import AutoDoc.Proofs.Splice.Tracking
import AutoDoc.Proofs.Text.Lines

/-!
# Folding tabs around splices

A splice looks at lines only to ask whether they end with a colon, open or close a string, are
blank, may be dropped or are empty. A rewriting of lines that leaves all these answers alone is not
seen by a splice (`Unseen`), so it can be made before or after (`splice_map`), and around a whole run
of splices as well (`spliceAll_map`). Folding tabs to at least one space is such a rewriting
(`unseen_foldLine`). Without a space it is not: a line that holds a tab only would become empty.
-/

namespace AutoDoc.Splice

/-- A rewriting of lines that changes nothing that a splice asks for. -/
structure Unseen (f : String → String) : Prop where
  colon : ∀ line, endsWithColon (f line) = endsWithColon line
  opens : ∀ line, opensString (Text.trim (f line)) = opensString (Text.trim line)
  closes : ∀ line, closesString (Text.trim (f line)) = closesString (Text.trim line)
  blank : ∀ line, Text.isBlank (f line) = Text.isBlank line
  disposable : ∀ line, isDisposable (f line) = isDisposable line
  empty : ∀ line, f line = "" ↔ line = ""

section

variable {f : String → String} (unseen : Unseen f)

include unseen

theorem findSignature_map (s : SourceText) (start stop : Nat) :
    findSignature ⟨s.lines.map f⟩ start stop = findSignature s start stop := by
  have colon : endsWithColon ∘ f = endsWithColon := funext unseen.colon
  simp only [findSignature, ← List.map_take, ← List.map_drop, List.findIdx?_map, colon]

theorem track_map (inString : Bool) (line : String) :
    track inString (f line) = track inString line := by
  simp only [track, unseen.opens, unseen.closes]

theorem bodyOffset_map (inString : Bool) (lines : List String) :
    bodyOffset inString (lines.map f) = bodyOffset inString lines := by
  induction lines generalizing inString with
  | nil => rfl
  | cons line rest ih =>
    have text : IsText inString (f line) ↔ IsText inString line := by
      simp only [IsText, unseen.blank, track_map unseen]
    rw [List.map_cons, bodyOffset_cons, bodyOffset_cons, ih, track_map unseen]
    simp only [text]

theorem findBody_map (s : SourceText) (sig : Nat) :
    findBody ⟨s.lines.map f⟩ sig = findBody s sig := by
  simp only [findBody, ← List.map_drop, bodyOffset_map unseen]

theorem contentEnd_map (s : SourceText) :
    SourceText.contentEnd ⟨s.lines.map f⟩ = s.contentEnd := by
  simp only [SourceText.contentEnd, SourceText.size, List.getLast?_map, List.length_map]
  cases s.lines.getLast? with
  | none => rfl
  | some last => exact if_congr (and_congr (unseen.empty last) Iff.rfl) rfl rfl

theorem skippedEnd_map (s : SourceText) (sig : Nat) :
    skippedEnd ⟨s.lines.map f⟩ sig = skippedEnd s sig := by
  simp only [skippedEnd, findBody_map unseen, contentEnd_map unseen]

theorem place_map (s : SourceText) (sig : Nat) : place ⟨s.lines.map f⟩ sig = place s sig := by
  have disposable : isDisposable ∘ f = isDisposable := by
    funext line
    rw [Function.comp_apply, unseen.disposable]
  have all : (skipped ⟨s.lines.map f⟩ sig).all isDisposable = (skipped s sig).all isDisposable := by
    simp only [skipped, skippedEnd_map unseen s sig, ← List.map_take, ← List.map_drop,
      List.all_map, disposable]
  rw [place, place, all, skippedEnd_map unseen s sig]

theorem report_map (s : SourceText) (sig : Nat) : report ⟨s.lines.map f⟩ sig = report s sig := by
  simp only [report, findBody_map unseen, place_map unseen]

/-- What a splice does not see can be rewritten before or after it. -/
theorem splice_map (s : SourceText) (startLine endLine : Nat) (block : List String) :
    SourceText.splice ⟨s.lines.map f⟩ startLine endLine (block.map f) =
      ((s.splice startLine endLine block).1,
        ⟨(s.splice startLine endLine block).2.lines.map f⟩) := by
  have signature := findSignature_map unseen s (startLine - 1) endLine
  cases found : findSignature s (startLine - 1) endLine with
  | none =>
    rw [found] at signature
    rw [SourceText.splice_of_none found, SourceText.splice_of_none signature]
  | some sig =>
    rw [found] at signature
    have emptyLine : f "" = "" := (unseen.empty "").mpr rfl
    rw [SourceText.splice_of_some found, SourceText.splice_of_some signature,
      report_map unseen s, place_map unseen s, skippedEnd_map unseen s]
    simp only [List.map_append, List.map_take, List.map_drop, List.map_cons, List.map_nil,
      emptyLine]

end

end AutoDoc.Splice

namespace AutoDoc

/-! ### Runs of splices -/

/-- A revision with the lines of its blocks and of its text rewritten. -/
def Revision.map (f : String → String) (r : Revision) : Revision :=
  ⟨r.steps.map fun step => { step with block := step.block.map f }, ⟨r.text.lines.map f⟩⟩

/-- The blocks that a revision spliced in, with the elements that they are for. -/
def Revision.jobs (r : Revision) : List (Element × List String) :=
  r.steps.map fun step => (step.element, step.block)

namespace SourceText

@[simp] theorem jobs_spliceAll (s : SourceText) (jobs : List (Element × List String)) :
    (s.spliceAll jobs).jobs = jobs := by
  induction jobs generalizing s with
  | nil => rfl
  | cons job rest ih =>
    rw [spliceAll_cons, Revision.jobs, List.map_cons]
    exact congrArg (job :: ·) (ih _)

/-- What no splice of a run sees can be rewritten before or after the whole run. -/
theorem spliceAll_map {f : String → String} (unseen : Splice.Unseen f) (s : SourceText)
    (jobs : List (Element × List String)) :
    spliceAll ⟨s.lines.map f⟩ (jobs.map fun job => (job.1, job.2.map f)) =
      (s.spliceAll jobs).map f := by
  induction jobs generalizing s with
  | nil => rfl
  | cons job rest ih =>
    have step := Splice.splice_map unseen s job.1.startLine.toNat job.1.endLine.toNat job.2
    rw [List.map_cons, spliceAll_cons, spliceAll_cons]
    simp only [spliceInto] at step ⊢
    rw [step, ih]
    rfl

end SourceText

/-! ### Folding tabs -/

namespace Splice

section

variable {width : Nat}

theorem trim_foldLine (width : Nat) (line : String) :
    Text.trim (SourceText.foldLine width line) = SourceText.foldLine width (Text.trim line) := by
  rw [Text.trim, Text.toList_foldLine, Text.trimChars_fold, ← String.toList_inj,
    String.toList_ofList, Text.toList_foldLine, Text.trim, String.toList_ofList]

/-- The last character of a trimmed line is not a tab, so it stays when tabs are folded. -/
theorem getLast?_fold_trim (width : Nat) (line : String) :
    (Text.trim (SourceText.foldLine width line)).toList.getLast? =
      (Text.trim line).toList.getLast? := by
  rw [trim_foldLine, Text.toList_foldLine]
  rcases (List.eq_nil_or_concat' (Text.trim line).toList) with none | ⟨front, c, text⟩
  · rw [none]
    rfl
  · have last : (Text.trimChars line.toList).getLast? = some c := by
      rw [← String.toList_ofList (l := Text.trimChars line.toList)]
      exact text ▸ List.getLast?_concat
    have dark := Text.isWhite_getLast_trimChars last
    have noTab : c ≠ '\t' := by
      rintro rfl
      rw [Text.isWhite_tab] at dark
      cases dark
    rw [text, Text.foldChars_append, Text.foldChars_cons noTab]
    simp

variable (positive : 0 < width)

include positive

theorem startsWith_fold (q : TripleQuote) (line : String) :
    Text.startsWith q.text (SourceText.foldLine width line) = Text.startsWith q.text line := by
  rw [Text.startsWith, Text.startsWith, Text.isPrefixOf_eq_afterMark?, Text.isPrefixOf_eq_afterMark?,
    Text.toList_foldLine, TripleQuote.afterMark?_fold positive q.text_dark, Option.isSome_map]

/-- A delimiter reads the same from behind. -/
theorem endsWith_fold (q : TripleQuote) (line : String) :
    Text.endsWith q.text (SourceText.foldLine width line) = Text.endsWith q.text line := by
  have palindrome : q.text.toList.reverse = q.text.toList := by cases q <;> rfl
  rw [Text.endsWith, Text.endsWith, List.isSuffixOf, List.isSuffixOf, palindrome,
    Text.toList_foldLine, ← Text.foldChars_reverse, Text.isPrefixOf_eq_afterMark?,
    Text.isPrefixOf_eq_afterMark?, TripleQuote.afterMark?_fold positive q.text_dark,
    Option.isSome_map]

/-- Where there is a character, some is left when tabs are folded to a space at least. -/
theorem foldChars_eq_nil {cs : List Char} : Text.foldChars width cs = [] ↔ cs = [] := by
  cases cs with
  | nil => simp
  | cons c cs =>
    by_cases tab : c = '\t'
    · subst tab
      simp [Nat.ne_of_gt positive]
    · simp [Text.foldChars_cons tab]

/-- A tab is not a quote, and neither is a space that takes its place. -/
theorem all_isQuote_fold (cs : List Char) :
    (Text.foldChars width cs).all isQuote = cs.all isQuote := by
  induction cs with
  | nil => rfl
  | cons c cs ih =>
    by_cases tab : c = '\t'
    · subst tab
      obtain ⟨n, rfl⟩ := Nat.exists_eq_succ_of_ne_zero (Nat.ne_of_gt positive)
      rfl
    · rw [Text.foldChars_cons tab, List.all_cons, List.all_cons, ih]

theorem unseen_foldLine : Unseen (SourceText.foldLine width) where
  colon line := by rw [endsWithColon, endsWithColon, getLast?_fold_trim]
  opens line := by
    simp only [opensString, trim_foldLine, startsWith_fold positive,
      TripleQuote.isOdd_fold _ positive]
  closes line := by
    simp only [closesString, trim_foldLine, endsWith_fold positive,
      TripleQuote.isOdd_fold _ positive]
  blank line := SourceText.isBlank_foldLine width line
  disposable line := by
    rw [isDisposable, isDisposable, trim_foldLine, Text.toList_foldLine, all_isQuote_fold positive]
  empty line := by
    rw [← String.toList_inj, Text.toList_foldLine, ← String.toList_inj]
    exact foldChars_eq_nil positive

end

end Splice

namespace SourceText

theorem foldChars_intercalate (width : Nat) (pieces : List (List Char)) :
    Text.foldChars width (['\n'].intercalate pieces) =
      ['\n'].intercalate (pieces.map (Text.foldChars width)) := by
  induction pieces with
  | nil => rfl
  | cons piece rest ih =>
    cases rest with
    | nil => simp
    | cons next rest =>
      have newline : Text.foldChars width ['\n'] = ['\n'] := rfl
      rw [List.map_cons] at ih
      rw [List.map_cons, List.map_cons, List.intercalate_cons_cons, List.intercalate_cons_cons,
        ← ih, Text.foldChars_append, Text.foldChars_append, newline]

theorem toText_foldTabs (s : SourceText) (width : Nat) :
    (s.foldTabs width).toText.toList = Text.foldChars width s.toText.toList := by
  have lines : String.toList ∘ foldLine width = Text.foldChars width ∘ String.toList :=
    funext fun line => Text.toList_foldLine width line
  rw [toText, toText, String.toList_intercalate, String.toList_intercalate, foldTabs, List.map_map,
    lines, ← List.map_map]
  exact (foldChars_intercalate width _).symm

/-- Folding tabs to at least one space commutes with splicing: whether the splice or the fold is
first, the outcome and the lines are the same, and the fold fails alike where it is too wide. So it
does with a whole run of splices, and with a revision: folding its text once is splicing its blocks,
folded, into the folded source. On the text as a whole a fold replaces every tab by spaces. -/
theorem folding_around_splices {width : Nat} (positive : 0 < width) (s : SourceText) :
    (∀ startLine endLine block,
      (s.foldTabs? width).map (·.splice startLine endLine (block.map (foldLine width))) =
        ((s.splice startLine endLine block).2.foldTabs? width).map
          ((s.splice startLine endLine block).1, ·)) ∧
    (∀ jobs : List (Element × List String),
      (s.foldTabs? width).map
          (·.spliceAll (jobs.map fun (e, block) => (e, block.map (foldLine width)))) =
        ((s.spliceAll jobs).text.foldTabs? width).map fun _ =>
          (s.spliceAll jobs).map (foldLine width)) ∧
    (∀ {σ : Type} (conventions : Conventions) (toolkit : Option (Toolkit σ)) elements state,
      let revision := ((s.revise conventions toolkit elements).run state).1
      (s.foldTabs? width).map (fun folded => (folded.spliceAll
          (revision.jobs.map fun (e, block) => (e, block.map (foldLine width)))).text) =
        revision.text.foldTabs? width) ∧
    (s.foldTabs width).toText =
      String.ofList (s.toText.toList.flatMap fun c =>
        if c = '\t' then List.replicate width ' ' else [c]) := by
  have unseen := Splice.unseen_foldLine positive
  have around : ∀ jobs : List (Element × List String), (s.foldTabs width).spliceAll
      (jobs.map fun (e, block) => (e, block.map (foldLine width))) =
        (s.spliceAll jobs).map (foldLine width) := fun jobs => spliceAll_map unseen s jobs
  refine ⟨fun startLine endLine block => ?_, fun jobs => ?_,
    fun conventions toolkit elements state => ?_, ?_⟩
  · have commutes := Splice.splice_map unseen s startLine endLine block
    unfold foldTabs?
    split
    · exact congrArg Except.ok commutes
    · rfl
  · unfold foldTabs?
    split
    · exact congrArg Except.ok (around jobs)
    · rfl
  · obtain ⟨jobs, _, run⟩ := revise_eq_spliceAll conventions toolkit s elements state
    dsimp only
    rw [run, jobs_spliceAll]
    unfold foldTabs?
    split
    · exact congrArg (fun revision => Except.ok revision.text) (around jobs)
    · rfl
  · rw [← String.toList_inj, String.toList_ofList, toText_foldTabs]
    rfl

/-- Tabs around a signature, inside a string that stays and on a line of their own. -/
theorem folding_around_splices_kept :
    let s : SourceText := ⟨["def f():\t", "\t\"\"\"", "'\t'", "\t\"\"\"\t", "\t", "\tx\t= 1"]⟩
    let block := ["\t\"\"\"", "\tone\ttwo", "\t\"\"\""]
    0 < 2 ∧ (s.foldTabs? 2).map (·.splice 1 6 (block.map (foldLine 2))) =
      .ok (.inserted 5, ⟨["def f():  ", "  \"\"\"", "'  '", "  \"\"\"  ", "  ", "  \"\"\"",
        "  one  two", "  \"\"\"", "", "  x  = 1"]⟩) := by
  intro s block
  have commutes := (folding_around_splices (show 0 < 2 by decide) s).1 1 6 block
  exact ⟨by decide, commutes.trans (by decide)⟩

/-- Without a space in its place a tab can be all that keeps a line from being empty. -/
example :
    let s : SourceText := ⟨["def f():", "\t"]⟩
    (s.foldTabs 0).splice 1 2 ["x"] ≠
      ((s.splice 1 2 ["x"]).1, (s.splice 1 2 ["x"]).2.foldTabs 0) := by decide

end SourceText

end AutoDoc
