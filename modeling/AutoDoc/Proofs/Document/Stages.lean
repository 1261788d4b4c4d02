import AutoDoc.Document
import AutoDoc.Proofs.Tree.Frame
import Mathlib.Data.List.Basic

/-!
# The stages of documenting a file

`Document.Job.Course` says how the work on one source can go: one constructor for each stage at
which it can stop, each with what all stages before it have found, and one for the work that comes
to its end. `Document.review` follows a course of its job (`run_ends`), and there is no other
(`Course.run_eq`); so the first stage that stops decides what is reported.

`documentFile_cases` puts the reading and the writing of the file around it: the tree changes only
where a draft is written, and a draft can always be written.
-/

namespace AutoDoc.Document

/-- What the work on a source starts from. -/
structure Job (σ : Type) where
  parser : Parser
  conventions : Conventions
  toolkit : Option (Toolkit σ)
  indentWidth : Nat
  source : String
  progress : Progress σ

namespace Job

variable {σ : Type} (job : Job σ)

def firstReply : ParseReply := job.parser job.progress.calls job.source

def revision (extraction : Extraction) : Revision :=
  (((SourceText.ofText job.source).revise job.conventions job.toolkit
    (extraction.elements.resolve job.conventions).toDocument).run job.progress.toolkit).1

def updated (extraction : Extraction) : String :=
  ((job.revision extraction).text.foldTabs job.indentWidth).toText

def secondReply (extraction : Extraction) : ParseReply :=
  job.parser (job.progress.calls + 1) (job.updated extraction)

/-- The source was parsed and has definitions. -/
structure Parsed (outline : Outline) : Prop where
  reply : job.firstReply = .ok (.ok outline)
  valid : outline.valid = true
  written : (SourceText.ofText job.source).isBlank = false
  definitions : outline.hasNoDefinitions = false

/-- The source was parsed and revised, and the revision is fit to be parsed again. -/
structure Revised (outline : Outline) (extraction : Extraction) : Prop
    extends job.Parsed outline where
  extracted : outline.extract = .ok extraction
  inserted : 0 < (job.revision extraction).inserted
  fits : job.indentWidth < Word.limit63

/-- How the work on a source goes. -/
inductive Course : Except Stop Draft → Prop where
  | parserFault {f : Fault} : job.firstReply = .error f → Course (.error (.fault f))
  | parserFailed {e : ParseError} :
      job.firstReply = .ok (.error e) → Course (.error (.failed (.parser e.message)))
  | invalid {outline : Outline} : job.firstReply = .ok (.ok outline) →
      outline.valid = false ∨ (SourceText.ofText job.source).isBlank = true →
      Course (.error (.failed .parseInvalid))
  | noDefinitions {outline : Outline} : job.firstReply = .ok (.ok outline) →
      outline.valid = true → (SourceText.ofText job.source).isBlank = false →
      outline.hasNoDefinitions = true → Course (.error (.failed .nothingToDocument))
  | extractionFault {outline : Outline} {f : Fault} : job.Parsed outline →
      outline.extract = .error f → Course (.error (.fault f))
  | noPlace {outline : Outline} {extraction : Extraction} : job.Parsed outline →
      outline.extract = .ok extraction → (job.revision extraction).inserted = 0 →
      Course (.error (.failed .nothingToDocument))
  | tooWide {outline : Outline} {extraction : Extraction} : job.Parsed outline →
      outline.extract = .ok extraction → 0 < (job.revision extraction).inserted →
      ¬ job.indentWidth < Word.limit63 → Course (.error (.fault .capacityOverflow))
  | recheckFault {outline : Outline} {extraction : Extraction} {f : Fault} :
      job.Revised outline extraction → job.secondReply extraction = .error f →
      Course (.error (.fault f))
  | recheckFailed {outline : Outline} {extraction : Extraction} {e : ParseError} :
      job.Revised outline extraction → job.secondReply extraction = .ok (.error e) →
      Course (.error (.failed (.parser e.message)))
  | rejected {outline checked : Outline} {extraction : Extraction} :
      job.Revised outline extraction → job.secondReply extraction = .ok (.ok checked) →
      checked.valid = false → Course (.error (.failed .validationFailed))
  | accepted {outline checked : Outline} {extraction : Extraction} :
      job.Revised outline extraction → job.secondReply extraction = .ok (.ok checked) →
      checked.valid = true →
      Course (.ok ⟨job.updated extraction, (job.revision extraction).inserted⟩)

end Job

/-! ### Following the work -/

section Running

variable {σ α β : Type}

theorem run_bind_ok {x : Work σ α} {p q : Progress σ} {a : α} (ran : x.run.run p = (.ok a, q))
    (f : α → Work σ β) : (x >>= f).run.run p = (f a).run.run q := by
  have opened : (x >>= f).run.run p =
      match x.run.run p with
      | (.error stop, q) => (.error stop, q)
      | (.ok a, q) => (f a).run.run q := by
    rw [ExceptT.run_bind, StateT.run_bind]
    rcases x.run.run p with ⟨_ | _, _⟩ <;> rfl
  rw [opened, ran]

theorem run_bind_error {x : Work σ α} {p q : Progress σ} {stop : Stop}
    (ran : x.run.run p = (.error stop, q)) (f : α → Work σ β) :
    (x >>= f).run.run p = (.error stop, q) := by
  rw [ExceptT.run_bind, StateT.run_bind, ran]
  rfl

theorem run_stop_if (condition : Prop) [Decidable condition] (stop : Stop) (next : Work σ α)
    (p : Progress σ) :
    (if condition then throw stop >>= fun _ : PUnit => next else next).run.run p =
      if condition then (.error stop, p) else next.run.run p := by
  split <;> rfl

/-- A call of the parser in closed form. -/
theorem callParser_run (parser : Parser) (source : String) (p : Progress σ) :
    (callParser parser source).run.run p =
      (match parser p.calls source with
        | .error f => .error (.fault f)
        | .ok (.error e) => .error (.failed (.parser e.message))
        | .ok (.ok outline) => .ok outline, { p with calls := p.calls + 1 }) := by
  have called : (callParser parser source).run.run p =
      (match parser p.calls source with
        | .error f => (throw (Stop.fault f) : Work σ Outline)
        | .ok (.error e) => throw (Stop.failed (.parser e.message))
        | .ok (.ok outline) => return outline).run.run { p with calls := p.calls + 1 } := rfl
  rw [called]
  rcases parser p.calls source with f | e | outline <;> rfl

end Running

namespace Job

variable {σ : Type} (job : Job σ)

def run : Except Stop Draft × Progress σ :=
  (review job.parser job.conventions job.toolkit job.indentWidth job.source).run.run job.progress

/-- What a run comes to: its course, and one or two calls of the parser. -/
def Ends (result : Except Stop Draft × Progress σ) : Prop :=
  job.Course result.1 ∧
    job.progress.calls < result.2.calls ∧ result.2.calls ≤ job.progress.calls + 2

/-- The last part of the review: the tabs are folded and the revised text is parsed. -/
def recheck (revision : Revision) : Work σ Draft := do
  let updated ← foldedText job.indentWidth revision
  let checked ← callParser job.parser updated
  if !checked.valid then throw (.failed .validationFailed)
  return ⟨updated, revision.inserted⟩

/-- The middle part of the review: elements are extracted and their blocks spliced in. -/
def reviseAndRecheck (outline : Outline) : Work σ Draft := do
  let elements ← elementsOf job.conventions outline
  let revision ← reviseText job.conventions job.toolkit (SourceText.ofText job.source) elements
  if revision.inserted == 0 then throw (.failed .nothingToDocument)
  job.recheck revision

/-- What the second reply makes of a revision. -/
def verdict (extraction : Extraction) : Except Stop Draft :=
  match job.secondReply extraction with
  | .error f => .error (.fault f)
  | .ok (.error e) => .error (.failed (.parser e.message))
  | .ok (.ok checked) =>
    if checked.valid then .ok ⟨job.updated extraction, (job.revision extraction).inserted⟩
    else .error (.failed .validationFailed)

theorem review_eq :
    review job.parser job.conventions job.toolkit job.indentWidth job.source = (do
      let outline ← callParser job.parser job.source
      if !outline.valid || (SourceText.ofText job.source).isBlank then
        throw (.failed .parseInvalid)
      if outline.hasNoDefinitions then throw (.failed .nothingToDocument)
      job.reviseAndRecheck outline) :=
  rfl

variable {job} {outline : Outline} {extraction : Extraction}

theorem run_of_fault {f : Fault} (reply : job.firstReply = .error f) :
    job.run = (.error (.fault f), ⟨job.progress.calls + 1, job.progress.toolkit⟩) := by
  have first := callParser_run job.parser job.source job.progress
  rw [show job.parser job.progress.calls job.source = _ from reply] at first
  exact run_bind_error first _

theorem run_of_parseError {e : ParseError} (reply : job.firstReply = .ok (.error e)) :
    job.run = (.error (.failed (.parser e.message)),
      ⟨job.progress.calls + 1, job.progress.toolkit⟩) := by
  have first := callParser_run job.parser job.source job.progress
  rw [show job.parser job.progress.calls job.source = _ from reply] at first
  exact run_bind_error first _

/-- The review of a job from the first reply on. -/
theorem run_of_reply (reply : job.firstReply = .ok (.ok outline)) :
    job.run =
      if outline.valid = false ∨ (SourceText.ofText job.source).isBlank = true then
        (.error (.failed .parseInvalid), ⟨job.progress.calls + 1, job.progress.toolkit⟩)
      else if outline.hasNoDefinitions = true then
        (.error (.failed .nothingToDocument), ⟨job.progress.calls + 1, job.progress.toolkit⟩)
      else (job.reviseAndRecheck outline).run.run
        ⟨job.progress.calls + 1, job.progress.toolkit⟩ := by
  have first := callParser_run job.parser job.source job.progress
  rw [show job.parser job.progress.calls job.source = _ from reply] at first
  rw [run, review_eq, run_bind_ok first, run_stop_if, run_stop_if]
  simp only [Bool.or_eq_true, Bool.not_eq_true']

theorem run_of_parsed (parsed : job.Parsed outline) :
    job.run = (job.reviseAndRecheck outline).run.run
      ⟨job.progress.calls + 1, job.progress.toolkit⟩ := by
  rw [run_of_reply parsed.reply, if_neg (by simp [parsed.valid, parsed.written]),
    if_neg (by simp [parsed.definitions])]

theorem reviseAndRecheck_fault {f : Fault} (failed : outline.extract = .error f)
    (p : Progress σ) : (job.reviseAndRecheck outline).run.run p = (.error (.fault f), p) := by
  have stopped : (elementsOf job.conventions outline : Work σ _).run.run p =
      (.error (.fault f), p) := by
    simp only [elementsOf, failed]
    rfl
  exact run_bind_error stopped _

/-- The middle part of the review in closed form: nothing inserted ends it, else the text is parsed
again. -/
theorem reviseAndRecheck_run (extracted : outline.extract = .ok extraction) :
    ∃ state : σ, (job.reviseAndRecheck outline).run.run
        ⟨job.progress.calls + 1, job.progress.toolkit⟩ =
      if (job.revision extraction).inserted = 0 then
        (.error (.failed .nothingToDocument), ⟨job.progress.calls + 1, state⟩)
      else (job.recheck (job.revision extraction)).run.run ⟨job.progress.calls + 1, state⟩ := by
  have elements : (elementsOf job.conventions outline : Work σ _).run.run
      ⟨job.progress.calls + 1, job.progress.toolkit⟩ =
      (.ok (extraction.elements.resolve job.conventions).toDocument,
        ⟨job.progress.calls + 1, job.progress.toolkit⟩) := by
    simp only [elementsOf, extracted]
    rfl
  obtain ⟨state, revised⟩ : ∃ state : σ, (reviseText job.conventions job.toolkit
      (SourceText.ofText job.source)
      (extraction.elements.resolve job.conventions).toDocument).run.run
      ⟨job.progress.calls + 1, job.progress.toolkit⟩ =
      (.ok (job.revision extraction), ⟨job.progress.calls + 1, state⟩) := ⟨_, rfl⟩
  refine ⟨state, ?_⟩
  unfold reviseAndRecheck
  rw [run_bind_ok elements, run_bind_ok revised, run_stop_if]
  simp only [beq_iff_eq]

/-- The last part of the review in closed form: one call of the parser, and its verdict. -/
theorem recheck_run (fits : job.indentWidth < Word.limit63) (state : σ) :
    (job.recheck (job.revision extraction)).run.run ⟨job.progress.calls + 1, state⟩ =
      (job.verdict extraction, ⟨job.progress.calls + 1 + 1, state⟩) := by
  have folded : (foldedText job.indentWidth (job.revision extraction) : Work σ _).run.run
      ⟨job.progress.calls + 1, state⟩ =
      (.ok (job.updated extraction), ⟨job.progress.calls + 1, state⟩) := by
    simp only [foldedText, SourceText.foldTabs?, if_pos fits]
    rfl
  have second := callParser_run job.parser (job.updated extraction)
    ⟨job.progress.calls + 1, state⟩
  unfold recheck verdict
  rw [run_bind_ok folded]
  rcases again : job.secondReply extraction with f | e | checked <;>
    rw [show job.parser (job.progress.calls + 1) (job.updated extraction) = _ from again] at second
  · exact run_bind_error second _
  · exact run_bind_error second _
  · rw [run_bind_ok second, run_stop_if]
    cases valid : checked.valid <;> simp only [valid] <;> rfl

theorem recheck_tooWide (wide : ¬ job.indentWidth < Word.limit63) (revision : Revision)
    (p : Progress σ) :
    (job.recheck revision).run.run p = (.error (.fault .capacityOverflow), p) := by
  have stopped : (foldedText job.indentWidth revision : Work σ _).run.run p =
      (.error (.fault .capacityOverflow), p) := by
    simp only [foldedText, SourceText.foldTabs?, if_neg wide]
    rfl
  exact run_bind_error stopped _

/-- A revision that is fit to be parsed again comes to the verdict on it. -/
theorem run_of_revised (revised : job.Revised outline extraction) :
    ∃ state, job.run = (job.verdict extraction, ⟨job.progress.calls + 1 + 1, state⟩) := by
  obtain ⟨state, ran⟩ := reviseAndRecheck_run revised.extracted
  refine ⟨state, ?_⟩
  rw [run_of_parsed revised.toParsed, ran, if_neg (Nat.pos_iff_ne_zero.mp revised.inserted),
    recheck_run revised.fits]

/-! ### The course of a job -/

theorem Course.afterOneCall {result : Except Stop Draft} (course : job.Course result) (state : σ) :
    job.Ends (result, ⟨job.progress.calls + 1, state⟩) :=
  ⟨course, Nat.lt_succ_self _, Nat.le_succ _⟩

theorem Course.afterTwoCalls {result : Except Stop Draft} (course : job.Course result) (state : σ) :
    job.Ends (result, ⟨job.progress.calls + 1 + 1, state⟩) :=
  ⟨course, Nat.lt_of_lt_of_le (Nat.lt_succ_self _) (Nat.le_succ _), Nat.le_refl _⟩

theorem verdict_course (revised : job.Revised outline extraction) :
    job.Course (job.verdict extraction) := by
  unfold verdict
  rcases again : job.secondReply extraction with f | e | checked
  · exact Course.recheckFault revised again
  · exact Course.recheckFailed revised again
  · dsimp only
    split
    next valid => exact Course.accepted revised again valid
    next invalid => exact Course.rejected revised again (by simpa using invalid)

/-- What follows the first call of the parser is one of the courses that `Course` lists. -/
theorem reviseAndRecheck_ends (parsed : job.Parsed outline) :
    job.Ends ((job.reviseAndRecheck outline).run.run
      ⟨job.progress.calls + 1, job.progress.toolkit⟩) := by
  cases extracted : outline.extract with
  | error f =>
    rw [reviseAndRecheck_fault extracted]
    exact (Course.extractionFault parsed extracted).afterOneCall _
  | ok extraction =>
    obtain ⟨state, ran⟩ := reviseAndRecheck_run extracted
    rw [ran]
    split
    next none => exact (Course.noPlace parsed extracted none).afterOneCall state
    next some =>
      have placed : 0 < (job.revision extraction).inserted := Nat.pos_iff_ne_zero.mpr some
      by_cases fits : job.indentWidth < Word.limit63
      · rw [recheck_run fits]
        exact (verdict_course ⟨parsed, extracted, placed, fits⟩).afterTwoCalls state
      · rw [recheck_tooWide fits]
        exact (Course.tooWide parsed extracted placed fits).afterOneCall state

/-- The review follows the course of its job. -/
theorem run_ends (job : Job σ) : job.Ends job.run := by
  rcases reply : job.firstReply with f | e | outline
  · rw [run_of_fault reply]
    exact (Course.parserFault reply).afterOneCall _
  · rw [run_of_parseError reply]
    exact (Course.parserFailed reply).afterOneCall _
  · rw [run_of_reply reply]
    split
    next bad => exact (Course.invalid reply bad).afterOneCall _
    next good =>
      simp only [not_or, Bool.not_eq_false, Bool.not_eq_true] at good
      split
      next empty => exact (Course.noDefinitions reply good.1 good.2 empty).afterOneCall _
      next defined => exact reviseAndRecheck_ends ⟨reply, good.1, good.2, by simpa using defined⟩

/-- No two stages can stop the same work: each of them decides what the run comes to. -/
theorem Course.run_eq {result : Except Stop Draft} (course : job.Course result) :
    job.run.1 = result := by
  cases course with
  | parserFault reply => rw [run_of_fault reply]
  | parserFailed reply => rw [run_of_parseError reply]
  | invalid reply bad => rw [run_of_reply reply, if_pos bad]
  | noDefinitions reply valid written empty =>
    rw [run_of_reply reply, if_neg (by simp [valid, written]), if_pos empty]
  | extractionFault parsed failed => rw [run_of_parsed parsed, reviseAndRecheck_fault failed]
  | noPlace parsed extracted none =>
    obtain ⟨state, ran⟩ := reviseAndRecheck_run extracted
    rw [run_of_parsed parsed, ran, if_pos none]
  | tooWide parsed extracted some wide =>
    obtain ⟨state, ran⟩ := reviseAndRecheck_run extracted
    rw [run_of_parsed parsed, ran, if_neg (Nat.pos_iff_ne_zero.mp some), recheck_tooWide wide]
  | recheckFault revised again =>
    obtain ⟨state, ran⟩ := run_of_revised revised
    rw [ran, verdict, again]
  | recheckFailed revised again =>
    obtain ⟨state, ran⟩ := run_of_revised revised
    rw [ran, verdict, again]
  | rejected revised again invalid =>
    obtain ⟨state, ran⟩ := run_of_revised revised
    simp only [ran, verdict, again, invalid, Bool.false_eq_true, if_false]
  | accepted revised again valid =>
    obtain ⟨state, ran⟩ := run_of_revised revised
    simp only [ran, verdict, again, valid, if_true]

/-- The course of a job is what its run comes to. -/
theorem course_iff {result : Except Stop Draft} : job.Course result ↔ job.run.1 = result := by
  constructor
  · exact Course.run_eq
  · intro same
    exact same ▸ (run_ends job).1

end Job

end AutoDoc.Document

namespace AutoDoc.Node

open Document

/-- Documenting a file: it cannot be read, or it is read and the course of the work on its text
decides. Only a draft changes the tree, by one write at the place the path leads to. -/
theorem documentFile_cases {σ : Type} (top : Node) (parser : Parser) (conventions : Conventions)
    (toolkit : Option (Toolkit σ)) (indentWidth : Nat) (path : String) (progress : Progress σ) :
    (∃ e, top.readText path = .error e ∧
      top.documentFile parser conventions toolkit indentWidth path progress =
        (.ok (.failed (.os e.message)), top, progress)) ∨
    ∃ source place, top.readText path = .ok source ∧ top.locate true path = .ok place ∧
      top.get? place = some (.file source.toUTF8) ∧
      let job : Job σ := ⟨parser, conventions, toolkit, indentWidth, source, progress⟩
      top.documentFile parser conventions toolkit indentWidth path progress =
        match job.run.1 with
        | .error (.fault f) => (.error f, top, job.run.2)
        | .error (.failed reason) => (.ok (.failed reason), top, job.run.2)
        | .ok draft =>
          (.ok (.documented draft.inserted), top.put place (.file draft.text.toUTF8),
            job.run.2) := by
  cases read : top.readText path with
  | error e =>
    refine Or.inl ⟨e, rfl, ?_⟩
    simp only [documentFile, read]
  | ok source =>
    obtain ⟨place, located, held⟩ := readText_ok read
    refine Or.inr ⟨source, place, rfl, located, held, ?_⟩
    intro job
    have ran : (review parser conventions toolkit indentWidth source).run.run progress =
        job.run := rfl
    simp only [documentFile, read, ran]
    rcases job.run with ⟨(reason | f) | draft, q⟩
    · rfl
    · rfl
    · simp only [writeText_after_read located held]

/-- A file that is documented went through all stages, and the text on which the second call of the
parser answered is written. -/
theorem documentFile_documented {σ : Type} {top tree : Node} {parser : Parser}
    {conventions : Conventions} {toolkit : Option (Toolkit σ)} {indentWidth : Nat} {path : String}
    {progress q : Progress σ} {inserted : Nat}
    (documented : top.documentFile parser conventions toolkit indentWidth path progress =
      (.ok (.documented inserted), tree, q)) :
    ∃ source place outline extraction checked, top.readText path = .ok source ∧
      top.locate true path = .ok place ∧ top.get? place = some (.file source.toUTF8) ∧
      let job : Job σ := ⟨parser, conventions, toolkit, indentWidth, source, progress⟩
      job.Revised outline extraction ∧ job.secondReply extraction = .ok (.ok checked) ∧
        checked.valid = true ∧ inserted = (job.revision extraction).inserted ∧
        tree = top.put place (.file (job.updated extraction).toUTF8) := by
  rcases top.documentFile_cases parser conventions toolkit indentWidth path progress with
    ⟨e, _, result⟩ | ⟨source, place, read, located, held, result⟩
  · rw [documented] at result
    cases result
  · rw [documented] at result
    have course := (Job.run_ends
      ⟨parser, conventions, toolkit, indentWidth, source, progress⟩).1
    dsimp only at result
    split at result
    · cases result
    · cases result
    next draft ran =>
      rw [ran] at course
      cases course with
      | accepted revised again valid =>
        cases result
        exact ⟨source, place, _, _, _, read, located, held, revised, again, valid, rfl, rfl⟩

/-- A draft is written, and reading the file gives its text. -/
theorem documentFile_of_run {σ : Type} {top : Node} {parser : Parser} {conventions : Conventions}
    {toolkit : Option (Toolkit σ)} {indentWidth : Nat} {path source : String}
    {progress : Progress σ} {draft : Draft} (read : top.readText path = .ok source)
    (ran : (Job.run ⟨parser, conventions, toolkit, indentWidth, source, progress⟩).1 =
      .ok draft) :
    ∃ tree q, top.documentFile parser conventions toolkit indentWidth path progress =
      (.ok (.documented draft.inserted), tree, q) ∧ tree.readText path = .ok draft.text := by
  rcases top.documentFile_cases parser conventions toolkit indentWidth path progress with
    ⟨e, unread, _⟩ | ⟨found, place, again, located, held, result⟩
  · rw [read] at unread
    cases unread
  · obtain rfl : source = found := Except.ok.inj (read.symm.trans again)
    dsimp only at result
    rw [ran] at result
    exact ⟨_, _, result, readText_after_write located held draft.text⟩

end AutoDoc.Node
