import AutoDoc.Backup
import AutoDoc.Proofs.Tree.Making
import Mathlib.Logic.Relation

/-!
# The walk of a backup

A walk reads a directory when it enters it and copies what it meets there, so the tree changes while
it is walked. What the walk does is told once, as steps: each copies one entry that stands below the
root and outside the backup (`CopyStep`), and `CopyStep.cases` says all that this can change. The
walk is a run of such steps (`copyBelow_run`), and a walk that ends well has copied every entry on
the way (`copyBelow_visits`). What a backup leaves is derived from these by induction on runs.

The depth to which directories are entered is a bound for the recursion only: with the one that is
used, the walk is what reading a directory and copying all its entries make of it
(`copyBelow_deepest`).
-/

namespace AutoDoc

namespace Node

theorem readDir_ok {top : Node} {path : String} {entries : List (String × Node)}
    (read : top.readDir path = .ok entries) :
    ∃ place, top.locate true path = .ok place ∧ top.get? place = some (.dir entries) := by
  obtain ⟨⟨place, node⟩, found, isDir⟩ := ok_of_bind read
  obtain ⟨located, held⟩ := find_ok found
  cases node with
  | dir inside =>
    cases isDir
    exact ⟨place, located, held⟩
  | file content => cases isDir
  | link target => cases isDir

/-- A file is copied to where the path of the target leads to, unless something else stands there. -/
theorem copyFile_ok {top after : Node} {source target : String}
    (copied : top.copyFile source target = .ok after) :
    ∃ place content reached, top.locate true source = .ok place ∧
      top.contentAt place = some content ∧ top.locate true target = .ok reached ∧
      (top.kindAt reached = some .file ∨ top.get? reached = none) ∧
      after = top.put reached (.file (if reached = place then .empty else content)) := by
  obtain ⟨⟨place, node⟩, found, rest⟩ := ok_of_bind copied
  obtain ⟨located, held⟩ := find_ok found
  cases node with
  | file content =>
    dsimp only at rest
    split at rest
    next reached there =>
      obtain ⟨again, located', free, put⟩ := writeBytes_ok rest
      obtain rfl : reached = again := Except.ok.inj (there.symm.trans located')
      exact ⟨place, content, reached, located, contentAt_eq_some.mpr held, there, free, put⟩
    · cases rest
  | dir entries => cases rest
  | link target => cases rest

end Node

namespace Backup

open Node

/-! ### Steps in turn -/

theorem andThen_ok {done : Node × Except OsError Unit}
    {next : Node → Node × Except OsError Unit} {after : Node} :
    andThen done next = (after, .ok ()) ↔
      ∃ mid, done = (mid, .ok ()) ∧ next mid = (after, .ok ()) := by
  rcases done with ⟨mid, e | ⟨⟩⟩ <;> simp [andThen]

/-- What holds after each step holds after all of them. -/
theorem andThen_fst {P : Node → Prop} {done : Node × Except OsError Unit}
    {next : Node → Node × Except OsError Unit} (first : P done.1)
    (onward : P done.1 → P (next done.1).1) : P (andThen done next).1 := by
  rcases done with ⟨mid, e | ⟨⟩⟩
  · exact first
  · exact onward first

section

variable {α : Type} {step : α → Node → Node × Except OsError Unit}

theorem inTurn_fst {P : Node → Prop} {l : List α} {top : Node} (start : P top)
    (each : ∀ a ∈ l, ∀ s, P s → P (step a s).1) : P (inTurn step l top).1 := by
  induction l generalizing top with
  | nil => exact start
  | cons a rest ih =>
    obtain ⟨here, later⟩ := List.forall_mem_cons.mp each
    exact andThen_fst (here top start) fun mid => ih mid later

theorem inTurn_append {before behind : List α} {top after : Node}
    (done : inTurn step (before ++ behind) top = (after, .ok ())) :
    ∃ mid, inTurn step before top = (mid, .ok ()) ∧ inTurn step behind mid = (after, .ok ()) := by
  induction before generalizing top with
  | nil => exact ⟨top, rfl, done⟩
  | cons a rest ih =>
    obtain ⟨next, first, onward⟩ := andThen_ok.mp done
    obtain ⟨mid, later, last⟩ := ih onward
    exact ⟨mid, andThen_ok.mpr ⟨next, first, later⟩, last⟩

/-- Steps do the same in turn if each does, in the trees that they are taken in. -/
theorem inTurn_congr {P : Node → Prop} {other : α → Node → Node × Except OsError Unit} {l : List α}
    {top : Node} (start : P top) (each : ∀ a ∈ l, ∀ s, P s → P (step a s).1)
    (same : ∀ a ∈ l, ∀ s, P s → step a s = other a s) : inTurn step l top = inTurn other l top := by
  induction l generalizing top with
  | nil => rfl
  | cons a rest ih =>
    obtain ⟨here, later⟩ := List.forall_mem_cons.mp each
    obtain ⟨first, others⟩ := List.forall_mem_cons.mp same
    have next := here top start
    rw [inTurn, inTurn, ← first top start]
    rcases result : step a top with ⟨mid, e | ⟨⟩⟩
    · rfl
    · rw [result] at next
      exact ih next later others

end

/-! ### One entry -/

theorem isDir_of_kind {entry : Node} (dir : entry.kind = .dir) : entry.isDir = true := by
  cases entry <;> first | rfl | cases dir

/-- Copying only asks what kind of entry there is. -/
theorem copyEntry_kind {entry other : Node} (same : entry.kind = other.kind)
    (source target : String) : copyEntry source target entry = copyEntry source target other := by
  cases entry <;> cases other <;> first | rfl | cases same

/-- A tree that grows and stays proper. -/
structure Adds (before after : Node) : Prop where
  grows : Grows before after
  proper : before.Proper → after.Proper

theorem Adds.refl (top : Node) : Adds top top := ⟨Grows.refl top, id⟩

theorem Adds.trans {a b c : Node} (first : Adds a b) (second : Adds b c) : Adds a c :=
  ⟨first.grows.trans second.grows, second.proper ∘ first.proper⟩

/-- Copying an entry adds to a tree, also where it fails. -/
theorem copyEntry_adds (source target : String) (entry top : Node) :
    Adds top (copyEntry source target entry top).1 := by
  cases entry with
  | dir entries =>
    have made := makeDirs_extended top target
    exact ⟨made.grows, made.proper⟩
  | file content =>
    rw [copyEntry]
    split
    next after copied =>
      obtain ⟨_, _, _, _, _, located, free, rfl⟩ := copyFile_ok copied
      exact ⟨(Written.put (locate_site located) free _).grows,
        (Written.put (locate_site located) free _).proper⟩
    · exact Adds.refl top
  | link target => exact Adds.refl top

/-- So does the step for an entry that is met, if what follows below it does. -/
theorem copyMet_adds {below : String → String → Node → Node × Except OsError Unit}
    (onward : ∀ source target top, Adds top (below source target top).1)
    (backup source target : String) (met : String × Node) (top : Node) :
    Adds top (copyMet backup source target below met top).1 := by
  unfold copyMet
  dsimp only
  split
  · exact Adds.refl top
  · refine andThen_fst (copyEntry_adds _ _ _ _) fun here => here.trans ?_
    split
    · exact onward _ _ _
    · exact Adds.refl _

/-- So does a walk, wherever its paths lead. -/
theorem copyBelow_adds (backup : String) (depth : Nat) (source target : String) (top : Node) :
    Adds top (copyBelow backup depth source target top).1 := by
  induction depth generalizing source target top with
  | zero => exact Adds.refl top
  | succ depth ih =>
    rw [copyBelow]
    cases top.readDir source with
    | error e => exact Adds.refl top
    | ok entries =>
      exact inTurn_fst (Adds.refl top) fun met _ mid here =>
        here.trans (copyMet_adds ih backup source target met mid)

/-! ### Depth -/

/-- A directory that was read has a path that can be passed on. -/
theorem readDir_short {top : Node} {path : String} {entries : List (String × Node)}
    (read : top.readDir path = .ok entries) : path.utf8ByteSize ≤ 4095 := by
  obtain ⟨place, located, _⟩ := readDir_ok read
  have opened := (locate_walked located).1
  unfold openPath at opened
  dsimp only at opened
  split at opened
  · cases opened
  · split at opened
    · cases opened
    next short => simpa [Path.tooLong] using short

theorem copyBelow_unread {backup source : String} {top : Node} {e : OsError}
    (read : top.readDir source = .error e) (depth : Nat) (target : String) :
    copyBelow backup depth source target top = (top, .error e) := by
  cases depth <;> rw [copyBelow, read]
  rfl

/-- What is done with an entry only depends on what is done below its path. -/
theorem copyMet_congr {backup source target : String} {met : String × Node} {top : Node}
    {below other : String → String → Node → Node × Except OsError Unit} (proper : top.Proper)
    (same : ∀ next : Node, next.Proper →
      below (Path.join source met.1) (Path.join target met.1) next =
        other (Path.join source met.1) (Path.join target met.1) next) :
    copyMet backup source target below met top = copyMet backup source target other met top := by
  unfold copyMet
  dsimp only
  have kept := (copyEntry_adds (Path.join source met.1) (Path.join target met.1) met.2 top).proper
    proper
  rcases copied : copyEntry (Path.join source met.1) (Path.join target met.1) met.2 top with
    ⟨next, e | ⟨⟩⟩
  · rfl
  · rw [copied] at kept
    simp only [andThen, same next kept]

/-- Depths that no path can reach make no difference. -/
theorem copyBelow_depth {top : Node} (proper : top.Proper) {backup source target : String}
    {depth other : Nat} (deep : 4095 < depth + source.utf8ByteSize)
    (deep' : 4095 < other + source.utf8ByteSize) :
    copyBelow backup depth source target top = copyBelow backup other source target top := by
  induction depth generalizing other source target top with
  | zero =>
    cases read : top.readDir source with
    | error e => rw [copyBelow_unread read, copyBelow_unread read]
    | ok entries => exact absurd (readDir_short read) (by omega)
  | succ depth ih =>
    cases read : top.readDir source with
    | error e => rw [copyBelow_unread read, copyBelow_unread read]
    | ok entries =>
      have short := readDir_short read
      obtain ⟨other, rfl⟩ : ∃ less, other = less + 1 := Nat.exists_eq_add_one.mpr (by omega)
      obtain ⟨_, _, held⟩ := readDir_ok read
      rw [copyBelow, copyBelow, read]
      refine inTurn_congr (P := Node.Proper) proper
        (fun met _ mid => (copyMet_adds (copyBelow_adds backup depth) _ _ _ met mid).proper)
        fun met member mid properMid => ?_
      have name : Path.IsName met.1 := by
        cases (proper.get? held).1 with
        | dir _ names _ => exact names met member
      have longer := Path.size_lt_join source name
      exact copyMet_congr properMid fun next properNext =>
        ih properNext (by omega) (by omega)

/-- The depth bounds the recursion only: a walk reads a directory and takes in all it finds there. -/
theorem copyBelow_deepest {top : Node} (proper : top.Proper) (backup source target : String) :
    copyBelow backup deepest source target top =
      match top.readDir source with
      | .error e => (top, .error e)
      | .ok entries =>
        inTurn (copyMet backup source target (copyBelow backup deepest)) entries top := by
  have enough : 4095 < deepest + source.utf8ByteSize := by rw [deepest]; omega
  have more : 4095 < deepest + 1 + source.utf8ByteSize := by omega
  exact (copyBelow_depth proper enough more).trans rfl

/-! ### Entries below a root -/

/-- A folder in a directory, without links in it: a path behind that of the folder leads below it. -/
structure Open (top : Node) (root folder n : String) (place : List String) : Prop where
  leads : Leads top root place
  folder : Leads top (Path.join root folder) (place ++ [n])
  free : ∀ names target, top.kindAt (place ++ n :: names) ≠ some (.link target)

/-- What a walk meets: an entry that stands below the root, behind names, and outside the folder. -/
structure Met (top : Node) (place : List String) (n : String) (names : List String)
    (entry : Node) : Prop where
  below : names ≠ []
  valid : ∀ m ∈ names, Path.IsName m
  outside : ¬ [n] <+: names
  stands : top.kindAt (place ++ names) = some entry.kind

section

variable {top : Node} {root folder n : String} {place names : List String} {entry : Node}

theorem Open.mono {later : Node} (opened : Open top root folder n place) (grows : Grows top later) :
    Open later root folder n place :=
  ⟨opened.leads.mono grows.kinds, opened.folder.mono grows.kinds,
    fun names target link => opened.free names target (grows.links _ _ link)⟩

theorem Met.mono {later : Node} (met : Met top place n names entry) (grows : Grows top later) :
    Met later place n names entry :=
  ⟨met.below, met.valid, met.outside, grows.kinds _ _ met.stands⟩

/-- In a proper tree the names that lead to an entry can be joined to a path. -/
theorem Met.of_proper (proper : top.Proper) (below : names ≠ []) (outside : ¬ [n] <+: names)
    (stands : top.kindAt (place ++ names) = some entry.kind) : Met top place n names entry := by
  obtain ⟨node, held⟩ : ∃ node, top.get? (place ++ names) = some node :=
    Option.ne_none_iff_exists'.mp (mt kindAt_none.mpr (by simp [stands]))
  exact ⟨below, fun m member => (proper.get? held).2 m (List.mem_append_right _ member), outside,
    stands⟩

/-- The path of an entry leads to it, unless it is a link. -/
theorem Met.eq_of_locate (met : Met top place n names entry) (leads : Leads top root place)
    (plain : entry.isLink = false) {reached : List String}
    (located : top.locate true (Path.joinNames root names) = .ok reached) :
    reached = place ++ names := by
  refine leads.eq_of_locate_standing met.valid met.stands (fun target link => ?_) located
  cases entry <;> cases link
  cases plain

/-- The path that it is copied to leads below the folder. -/
theorem Open.eq_of_locate (opened : Open top root folder n place)
    (met : Met top place n names entry) {reached : List String}
    (located : top.locate true (Path.joinNames (Path.join root folder) names) = .ok reached) :
    reached = place ++ n :: names := by
  rw [List.append_cons]
  refine opened.folder.eq_of_locate met.below met.valid (fun above _ target link => ?_) located
  rw [List.append_assoc, List.singleton_append] at link
  exact opened.free above target link

/-- All that copying an entry can do: it fails, or the entry is a link, and nothing is changed;
directories are made; or the bytes of a file come to stand in the folder. -/
theorem copyEntry_cases (opened : Open top root folder n place)
    (met : Met top place n names entry) :
    let copied := copyEntry (Path.joinNames root names)
      (Path.joinNames (Path.join root folder) names) entry top
    (copied.1 = top ∧ (copied.2 = .ok () → entry.isLink = true)) ∨
    (entry.isDir = true ∧ copied = top.makeDirs (Path.joinNames (Path.join root folder) names)) ∨
    ∃ content, top.contentAt (place ++ names) = some content ∧ Site top (place ++ n :: names) ∧
      (top.kindAt (place ++ n :: names) = some .file ∨ top.get? (place ++ n :: names) = none) ∧
      copied = (top.put (place ++ n :: names) (.file content), .ok ()) := by
  intro copied
  cases entry with
  | link target => exact Or.inl ⟨rfl, fun _ => rfl⟩
  | dir entries => exact Or.inr (Or.inl ⟨rfl, rfl⟩)
  | file old =>
    rcases done : top.copyFile (Path.joinNames root names)
      (Path.joinNames (Path.join root folder) names) with e | after
    · have failed : copied = (top, .error e) := by simp only [copied, copyEntry, done]
      exact Or.inl ⟨by rw [failed], by rw [failed]; exact fun ok => by cases ok⟩
    · obtain ⟨from', content, reached, located, held, located', free, rfl⟩ := copyFile_ok done
      have site := locate_site located'
      obtain rfl := met.eq_of_locate opened.leads rfl located
      obtain rfl := opened.eq_of_locate met located'
      -- The copy stands deeper than the file, so it is not written over what is read.
      have apart : place ++ n :: names ≠ place ++ names := fun same => by
        simpa using congrArg List.length same
      rw [if_neg apart] at done
      exact Or.inr (Or.inr ⟨content, held, site, free, by simp only [copied, copyEntry, done]⟩)

/-- A directory that was copied stands in the folder, and so does a file with its bytes. -/
theorem copyEntry_ok (opened : Open top root folder n place) (met : Met top place n names entry)
    (plain : entry.isLink = false) {after : Node}
    (done : copyEntry (Path.joinNames root names) (Path.joinNames (Path.join root folder) names)
      entry top = (after, .ok ())) :
    after.kindAt (place ++ n :: names) = some entry.kind ∧
      after.contentAt (place ++ n :: names) = top.contentAt (place ++ names) := by
  rcases copyEntry_cases opened met with ⟨_, failed⟩ | ⟨isDir, made⟩ |
    ⟨content, held, site, _, put⟩
  · rw [failed (by rw [done])] at plain
    cases plain
  · have extended := makeDirs_extended top (Path.joinNames (Path.join root folder) names)
    rw [made] at done
    rw [done] at extended
    obtain ⟨reached, leads⟩ := makeDirs_leads
      (Path.joinNames_ne_empty opened.folder.relative.1 met.valid) done
    obtain rfl :=
      (opened.mono extended.grows).eq_of_locate (met.mono extended.grows) leads.located
    cases entry with
    | file content => cases isDir
    | link target => cases isDir
    | dir entries =>
      obtain ⟨_, here⟩ := kindAt_dir.mp leads.dir
      obtain ⟨_, there⟩ := kindAt_dir.mp met.stands
      exact ⟨leads.dir, by rw [contentAt, contentAt, here, there]; rfl⟩
  · rw [put] at done
    cases done
    have file := met.stands
    rw [kindAt_file.mpr ⟨content, held⟩] at file
    rw [← file, held, kindAt, contentAt, site.get?_put]
    exact ⟨rfl, rfl⟩

end

/-! ### Runs -/

theorem valid_concat {names : List String} {n : String} (valid : ∀ m ∈ names, Path.IsName m)
    (name : Path.IsName n) : ∀ m ∈ names ++ [n], Path.IsName m :=
  List.forall_mem_append.mpr ⟨valid, by simpa using name⟩

/-- An entry that the walk meets is copied, as far as that goes. -/
def CopyStep (root folder n : String) (place : List String) (before after : Node) : Prop :=
  ∃ names entry, Met before place n names entry ∧
    after = (copyEntry (Path.joinNames root names)
      (Path.joinNames (Path.join root folder) names) entry before).1

abbrev CopyRun (root folder n : String) (place : List String) : Node → Node → Prop :=
  Relation.ReflTransGen (CopyStep root folder n place)

section

variable {top : Node} {root folder n : String} {place names : List String}

theorem CopyRun.adds {after : Node} (run : CopyRun root folder n place top after) :
    Adds top after := by
  induction run with
  | refl => exact Adds.refl top
  | tail _ step ih =>
    obtain ⟨names, entry, _, rfl⟩ := step
    exact ih.trans (copyEntry_adds _ _ _ _)

/-- A directory that the walk enters: the root or one below it, outside the folder. -/
structure Entered (top : Node) (root n : String) (place names : List String) : Prop where
  leads : Leads top root place
  proper : top.Proper
  valid : ∀ m ∈ names, Path.IsName m
  outside : ¬ [n] <+: names
  dir : top.kindAt (place ++ names) = some .dir

/-- Entries of a directory, as they stand in it. -/
def Found (top : Node) (place names : List String) (entries : List (String × Node)) : Prop :=
  ∀ met ∈ entries, Path.IsName met.1 ∧ top.kindAt (place ++ (names ++ [met.1])) = some met.2.kind

theorem Entered.mono {later : Node} (entered : Entered top root n place names)
    (run : CopyRun root folder n place top later) : Entered later root n place names :=
  ⟨entered.leads.mono run.adds.grows.kinds, run.adds.proper entered.proper, entered.valid,
    entered.outside, run.adds.grows.kinds _ _ entered.dir⟩

theorem Found.mono {later : Node} {entries : List (String × Node)}
    (found : Found top place names entries) (run : CopyRun root folder n place top later) :
    Found later place names entries :=
  fun met member => ⟨(found met member).1, run.adds.grows.kinds _ _ (found met member).2⟩

/-- A directory is found to hold what stands in it. -/
theorem Entered.read (entered : Entered top root n place names) {entries : List (String × Node)}
    (read : top.readDir (Path.joinNames root names) = .ok entries) :
    Found top place names entries ∧
      ∀ m k, top.kindAt (place ++ (names ++ [m])) = some k →
        ∃ child, (m, child) ∈ entries ∧ child.kind = k := by
  obtain ⟨reached, located, held⟩ := readDir_ok read
  obtain rfl := entered.leads.eq_of_locate_standing entered.valid entered.dir (by simp) located
  have child := fun m => kindAt_child held m
  simp only [List.append_assoc] at child
  refine ⟨fun met member => ?_, fun m k stands => ?_⟩
  · cases (entered.proper.get? held).1 with
    | dir ascending names _ =>
      exact ⟨names met member, by rw [child, ascending.lookup member]; rfl⟩
  · rw [child] at stands
    obtain ⟨node, found, kind⟩ := Option.map_eq_some_iff.mp stands
    exact ⟨node, mem_of_lookup found, kind⟩

theorem Entered.child (entered : Entered top root n place names) {m : String} {entry : Node}
    (name : Path.IsName m) (stands : top.kindAt (place ++ (names ++ [m])) = some entry.kind)
    (other : names ++ [m] ≠ [n]) : Met top place n (names ++ [m]) entry := by
  refine ⟨by simp, valid_concat entered.valid name, ?_, stands⟩
  rw [List.prefix_concat_iff, not_or]
  exact ⟨Ne.symm other, entered.outside⟩

theorem Met.entered {entry : Node} (met : Met top place n names entry) (leads : Leads top root place)
    (proper : top.Proper) (isDir : entry.isDir = true) : Entered top root n place names := by
  refine ⟨leads, proper, met.valid, met.outside, met.stands.trans ?_⟩
  cases entry <;> first | rfl | cases isDir

variable (plain : (Path.parse folder).absolute = false)
  (single : Path.components folder = [.name n])
  {below : String → String → Node → Node × Except OsError Unit}

include plain single

/-- The entry that is left out is the one which the folder names, however the folder is written. -/
theorem copyMet_eq {met : String × Node} (entered : Entered top root n place names)
    (name : Path.IsName met.1) :
    copyMet (Path.join root folder) (Path.joinNames root names)
        (Path.joinNames (Path.join root folder) names) below met top =
      if names ++ [met.1] = [n] then (top, .ok ())
      else andThen (copyEntry (Path.joinNames root (names ++ [met.1]))
          (Path.joinNames (Path.join root folder) (names ++ [met.1])) met.2 top) fun top =>
        if met.2.isDir then below (Path.joinNames root (names ++ [met.1]))
          (Path.joinNames (Path.join root folder) (names ++ [met.1])) top
        else (top, .ok ()) := by
  have spelled := Path.same_joinNames entered.leads.relative.1 entered.leads.relative.2 plain single
    (valid_concat entered.valid name)
  unfold copyMet
  dsimp only
  rw [← Path.joinNames_concat, ← Path.joinNames_concat]
  exact if_congr spelled rfl rfl

/-- Taking an entry in is a run of copying steps, if entering directories is. -/
theorem copyMet_run {met : String × Node} (entered : Entered top root n place names)
    (found : Found top place names [met])
    (onward : ∀ m mid, Entered mid root n place (names ++ [m]) →
      CopyRun root folder n place mid (below (Path.joinNames root (names ++ [m]))
        (Path.joinNames (Path.join root folder) (names ++ [m])) mid).1) :
    CopyRun root folder n place top
      (copyMet (Path.join root folder) (Path.joinNames root names)
        (Path.joinNames (Path.join root folder) names) below met top).1 := by
  obtain ⟨name, stands⟩ := found met List.mem_cons_self
  rw [copyMet_eq plain single entered name]
  split
  · exact .refl
  next other =>
    have entry := entered.child name stands other
    refine andThen_fst (.single ⟨_, _, entry, rfl⟩) fun run => ?_
    split
    next isDir =>
      have later := entered.mono run
      exact Relation.ReflTransGen.trans run
        (onward _ _ ((entry.mono (CopyRun.adds run).grows).entered later.leads later.proper isDir))
    · exact run

theorem inTurn_run {entries : List (String × Node)} (entered : Entered top root n place names)
    (found : Found top place names entries)
    (onward : ∀ m mid, Entered mid root n place (names ++ [m]) →
      CopyRun root folder n place mid (below (Path.joinNames root (names ++ [m]))
        (Path.joinNames (Path.join root folder) (names ++ [m])) mid).1) :
    CopyRun root folder n place top
      (inTurn (copyMet (Path.join root folder) (Path.joinNames root names)
        (Path.joinNames (Path.join root folder) names) below) entries top).1 := by
  refine inTurn_fst .refl fun met member mid run => run.trans ?_
  refine copyMet_run plain single (entered.mono run) (fun same here => ?_) onward
  rw [List.mem_singleton.mp here]
  exact (Found.mono found run) met member

/-- If all entries are taken in, each has its turn: it is copied, and a directory is entered. -/
theorem inTurn_visits {entries : List (String × Node)} (entered : Entered top root n place names)
    (found : Found top place names entries)
    (onward : ∀ m mid, Entered mid root n place (names ++ [m]) →
      CopyRun root folder n place mid (below (Path.joinNames root (names ++ [m]))
        (Path.joinNames (Path.join root folder) (names ++ [m])) mid).1) {after : Node}
    (done : inTurn (copyMet (Path.join root folder) (Path.joinNames root names)
      (Path.joinNames (Path.join root folder) names) below) entries top = (after, .ok ()))
    {m : String} {child : Node} (member : (m, child) ∈ entries) (other : names ++ [m] ≠ [n]) :
    ∃ before copied left, CopyRun root folder n place top before ∧
      copyEntry (Path.joinNames root (names ++ [m]))
        (Path.joinNames (Path.join root folder) (names ++ [m])) child before = (copied, .ok ()) ∧
      CopyRun root folder n place before copied ∧
      (child.isDir = true → Entered copied root n place (names ++ [m]) ∧
        below (Path.joinNames root (names ++ [m]))
          (Path.joinNames (Path.join root folder) (names ++ [m])) copied = (left, .ok ())) ∧
      CopyRun root folder n place copied left ∧ CopyRun root folder n place left after := by
  obtain ⟨name, here⟩ := found _ member
  obtain ⟨first, last, rfl⟩ := List.append_of_mem member
  obtain ⟨before, ahead, rest⟩ := inTurn_append done
  obtain ⟨left, own, behind⟩ := andThen_ok.mp rest
  have toChild := inTurn_run plain single entered
    (fun met inFirst => found met (List.mem_append_left _ inFirst)) onward
  rw [ahead] at toChild
  rw [copyMet_eq plain single (entered.mono toChild) name, if_neg other] at own
  obtain ⟨copied, copy, inner⟩ := andThen_ok.mp own
  have entry := (entered.child name here other).mono (CopyRun.adds toChild).grows
  have step : CopyRun root folder n place before copied := .single ⟨_, child, entry, by rw [copy]⟩
  have later := (entered.mono toChild).mono step
  have inside : child.isDir = true → Entered copied root n place (names ++ [m]) :=
    (entry.mono (CopyRun.adds step).grows).entered later.leads later.proper
  have fromCopy : CopyRun root folder n place copied left := by
    split at inner
    next isDir =>
      have run := onward m copied (inside isDir)
      rwa [inner] at run
    · cases inner
      exact .refl
  have toLast := (Relation.ReflTransGen.trans toChild step).trans fromCopy
  have rest : Found left place names last := fun met inLast =>
    Found.mono found toLast met (by simp [inLast])
  have fromChild := inTurn_run plain single (entered.mono toLast) rest onward
  rw [behind] at fromChild
  exact ⟨before, copied, left, toChild, copy, step,
    fun isDir => ⟨inside isDir, by rwa [if_pos isDir] at inner⟩, fromCopy, fromChild⟩

/-- Walking what is below a directory is a run of copying steps. -/
theorem copyBelow_run (entered : Entered top root n place names) (depth : Nat) :
    CopyRun root folder n place top
      (copyBelow (Path.join root folder) depth (Path.joinNames root names)
        (Path.joinNames (Path.join root folder) names) top).1 := by
  induction depth generalizing names top with
  | zero => exact .refl
  | succ depth ih =>
    rw [copyBelow]
    cases read : top.readDir (Path.joinNames root names) with
    | error e => exact .refl
    | ok entries =>
      exact inTurn_run plain single entered (entered.read read).1 fun _ _ inside => ih inside

/-- A walk that ends well has copied every entry on its way. -/
theorem copyBelow_visits (entered : Entered top root n place names) {depth : Nat} {after : Node}
    (done : copyBelow (Path.join root folder) depth (Path.joinNames root names)
      (Path.joinNames (Path.join root folder) names) top = (after, .ok ()))
    {behind : List String} {entry : Node} (further : behind ≠ [])
    (met : Met top place n (names ++ behind) entry) :
    ∃ before copied, CopyRun root folder n place top before ∧
      copyEntry (Path.joinNames root (names ++ behind))
        (Path.joinNames (Path.join root folder) (names ++ behind)) entry before =
          (copied, .ok ()) ∧
      CopyRun root folder n place copied after := by
  induction depth generalizing names top after behind with
  | zero =>
    rw [copyBelow] at done
    cases read : top.readDir (Path.joinNames root names) <;> simp [read, Except.bind] at done
  | succ depth ih =>
    rw [copyBelow] at done
    cases read : top.readDir (Path.joinNames root names) with
    | error e => simp [read] at done
    | ok entries =>
      simp only [read] at done
      obtain ⟨found, all⟩ := entered.read read
      obtain ⟨m, more, rfl⟩ := List.exists_cons_of_ne_nil further
      rw [List.append_cons] at met ⊢
      have other : names ++ [m] ≠ [n] := fun same => met.outside ⟨more, by rw [← same]⟩
      have onward := fun m mid (inside : Entered mid root n place (names ++ [m])) =>
        copyBelow_run plain single inside depth
      cases more with
      | nil =>
        rw [List.append_nil] at met ⊢
        obtain ⟨child, member, kind⟩ := all m _ met.stands
        obtain ⟨before, copied, left, toChild, copy, _, _, fromCopy, fromChild⟩ :=
          inTurn_visits plain single entered found onward done member other
        rw [copyEntry_kind kind] at copy
        exact ⟨before, copied, toChild, copy, fromCopy.trans fromChild⟩
      | cons p rest =>
        have dir : top.kindAt (place ++ (names ++ [m])) = some .dir := by
          refine kindAt_above (List.cons_ne_nil p rest) ?_
          rw [List.append_assoc, met.stands]
          exact Option.some_ne_none _
        obtain ⟨child, member, kind⟩ := all m _ dir
        obtain ⟨before, copied, left, toChild, _, step, enters, _, fromChild⟩ :=
          inTurn_visits plain single entered found onward done member other
        obtain ⟨inside, below⟩ := enters (isDir_of_kind kind)
        have toCopy := toChild.trans step
        obtain ⟨before', copied', toEntry, copy, fromEntry⟩ :=
          ih inside below (List.cons_ne_nil p rest) (met.mono (CopyRun.adds toCopy).grows)
        exact ⟨before', copied', toCopy.trans toEntry, copy, fromEntry.trans fromChild⟩

end

end Backup

end AutoDoc
