import AutoDoc.Proofs.Backup.Copying
import AutoDoc.Proofs.Backup.Removal

/-!
# What a backup leaves

After a backup its folder holds the bytes of every file that stood elsewhere below the root
(`backup_ok`), and outside the folder all files and links are as they were. Directories can have been
made on the way there. A backup that stops part of the way leaves the files outside its folder alone
as well (`backup_outside`). This is for roots that lead to the same directory afterwards: a path that
goes through the old backup may not.

* `CopyStep.copied`, `CopyRun.copied` — what one copying step does to the bytes of files, and so a
  run of them;
* `fill_cases`, `backup_cases` — how far filling a backup and the whole backup come.
-/

namespace AutoDoc.Backup

open Node

/-! ### The bytes of files -/

/-- Files were brought to the folder `n` at a place: those outside keep their bytes, and so does a
copy that has the bytes of its original. -/
structure Copied (place : List String) (n : String) (before after : Node) : Prop where
  outside : ∀ names, ¬ place ++ [n] <+: names → after.contentAt names = before.contentAt names
  keeps : ∀ names content, ¬ [n] <+: names → before.contentAt (place ++ names) = some content →
    before.contentAt (place ++ n :: names) = some content →
    after.contentAt (place ++ n :: names) = some content

section

variable {top after : Node} {root folder n : String} {place : List String}

theorem off_of_outside {names : List String} (outside : ¬ [n] <+: names) :
    ¬ place ++ [n] <+: place ++ names :=
  fun below => outside ((List.prefix_append_right_inj place).mp below)

theorem Copied.of_extended (extended : Extended top after) : Copied place n top after :=
  ⟨fun names _ => extended.contents names, fun names _ _ _ there => by rwa [extended.contents]⟩

theorem Copied.trans {later : Node} (first : Copied place n top after)
    (second : Copied place n after later) : Copied place n top later :=
  ⟨fun names off => (second.outside names off).trans (first.outside names off),
    fun names content outside original there => second.keeps names content outside
      ((first.outside _ (off_of_outside outside)).trans original)
      (first.keeps names content outside original there)⟩

/-- A file of the root is written at its place in the backup. -/
theorem Copied.of_written {names : List String} {content : ByteArray}
    (original : top.contentAt (place ++ names) = some content)
    (written : Written (place ++ n :: names) content top after) : Copied place n top after := by
  refine ⟨fun others off => written.elsewhere others ?_, fun others bytes _ same there => ?_⟩
  · rintro rfl
    exact off (by simp)
  · by_cases here : others = names
    · subst here
      rw [written.here, ← original, same]
    · rwa [written.elsewhere _ fun eq => here (by simpa using eq)]

/-- Copying one entry touches no file outside the folder and leaves good copies alone. -/
theorem CopyStep.copied (opened : Open top root folder n place)
    (step : CopyStep root folder n place top after) : Copied place n top after := by
  obtain ⟨names, entry, met, rfl⟩ := step
  rcases copyEntry_cases opened met with ⟨same, _⟩ | ⟨_, made⟩ | ⟨content, held, site, free, put⟩
  · rw [same]
    exact Copied.of_extended (Extended.refl top)
  · rw [made]
    exact Copied.of_extended (makeDirs_extended top _)
  · rw [put]
    exact Copied.of_written held (Written.put site free content)

theorem CopyRun.copied (opened : Open top root folder n place)
    (run : CopyRun root folder n place top after) : Copied place n top after := by
  induction run with
  | refl => exact Copied.of_extended (Extended.refl top)
  | tail run step ih =>
    exact ih.trans (CopyStep.copied (opened.mono (CopyRun.adds run).grows) step)

end

/-! ### Filling -/

/-- Filling fails before anything is copied, has nothing to walk, or is a walk from the root on. -/
theorem fill_cases (top : Node) (root folder : String) :
    let path := Path.join root folder
    (∃ e, fill top root folder = (top, .error e)) ∨
    ∃ place node, top.find root = .ok (place, node) ∧
      (fill top root folder = (top, .ok path) ∨
        fill top root folder = ((copyBelow path deepest root path top).1,
          (copyBelow path deepest root path top).2.map fun _ => path)) := by
  unfold fill
  dsimp only
  split
  · exact Or.inl ⟨_, rfl⟩
  next place node found =>
    refine Or.inr ⟨place, node, found, ?_⟩
    split
    · exact Or.inl rfl
    · exact Or.inr rfl

/-- Filling a backup adds to the tree, also where it fails. -/
theorem fill_adds (top : Node) (root folder : String) : Adds top (fill top root folder).1 := by
  obtain ⟨e, failed⟩ | ⟨place, node, _, none | walked⟩ := fill_cases top root folder
  · rw [failed]
    exact Adds.refl top
  · rw [none]
    exact Adds.refl top
  · rw [walked]
    exact copyBelow_adds _ _ _ _ _

section

variable {top : Node} {root folder n : String} {place : List String}

theorem Open.entered (opened : Open top root folder n place) (proper : top.Proper) :
    Entered top root n place [] :=
  ⟨opened.leads, proper, fun _ absent => (by cases absent), by simp,
    by simpa using opened.leads.dir⟩

variable (plain : (Path.parse folder).absolute = false)
  (single : Path.components folder = [.name n])

include plain single

/-- The folder of a root that leads to a directory is filled by the walk. -/
theorem fill_walk (leads : Leads top root place) :
    let path := Path.join root folder
    fill top root folder = ((copyBelow path deepest root path top).1,
      (copyBelow path deepest root path top).2.map fun _ => path) := by
  obtain ⟨entries, found⟩ := leads.find
  have other : Path.same root (Path.join root folder) = false := by
    rw [Bool.eq_false_iff]
    intro same
    have spelled := Path.same_joinNames leads.relative.1 leads.relative.2 plain single
      (show ∀ m ∈ ([] : List String), Path.IsName m from fun _ absent => by cases absent)
    cases spelled.mp same
  simp [fill, found, isDir, other]

/-- So filling a folder is a run of copying steps. -/
theorem fill_run (opened : Open top root folder n place) (proper : top.Proper) :
    CopyRun root folder n place top (fill top root folder).1 := by
  rw [fill_walk plain single opened.leads]
  exact copyBelow_run plain single (opened.entered proper) deepest

/-- Filling a folder copies all that stands elsewhere below the root, links excepted. -/
theorem fill_visits (opened : Open top root folder n place) (proper : top.Proper) {after : Node}
    {path : String} (filled : fill top root folder = (after, .ok path)) {names : List String}
    {entry : Node} (met : Met top place n names entry) (noLink : entry.isLink = false) :
    ∃ copied, CopyRun root folder n place top copied ∧
      copied.kindAt (place ++ n :: names) = some entry.kind ∧
      copied.contentAt (place ++ n :: names) = top.contentAt (place ++ names) ∧
      CopyRun root folder n place copied after := by
  rw [fill_walk plain single opened.leads] at filled
  obtain ⟨rfl, ended⟩ := Prod.mk.inj filled
  have walked : (copyBelow (Path.join root folder) deepest root (Path.join root folder) top).2 =
      .ok () := by
    cases walked : (copyBelow (Path.join root folder) deepest root (Path.join root folder) top).2 with
    | error e =>
      rw [walked] at ended
      cases ended
    | ok => rfl
  have done : copyBelow (Path.join root folder) deepest root (Path.join root folder) top =
      ((copyBelow (Path.join root folder) deepest root (Path.join root folder) top).1, .ok ()) := by
    rw [← walked]
  obtain ⟨before, copied, run, copy, later⟩ :=
    copyBelow_visits plain single (opened.entered proper) done met.below met
  have grows := (CopyRun.adds run).grows
  obtain ⟨kinds, contents⟩ := copyEntry_ok (opened.mono grows) (met.mono grows) noLink copy
  rw [(CopyRun.copied opened run).outside _ (off_of_outside met.outside)] at contents
  exact ⟨copied, run.tail ⟨names, entry, met.mono grows, (congrArg Prod.fst copy).symm⟩, kinds,
    contents, later⟩

end

/-- What is in a tree after a backup at `place` in the folder `n`. -/
structure BackedUp (place : List String) (n : String) (before after : Node) : Prop where
  kinds : ∀ names k, ¬ place ++ [n] <+: names → before.kindAt names = some k →
    after.kindAt names = some k
  contents : ∀ names, ¬ place ++ [n] <+: names → after.contentAt names = before.contentAt names
  links : ∀ names target, after.kindAt names = some (.link target) →
    before.kindAt names = some (.link target)
  held : after.kindAt (place ++ [n]) = some .dir
  copies : ∀ names content, ¬ [n] <+: names →
    before.contentAt (place ++ names) = some content →
    after.contentAt (place ++ n :: names) = some content
  proper : after.Proper


section

variable {top : Node} {root folder : String} {place : List String}

/-- Filling touches nothing outside the folder, also where it fails. -/
theorem fill_outside (proper : top.Proper) (name : Path.IsName folder)
    (opened : Open top root folder folder place) {names : List String}
    (off : ¬ place ++ [folder] <+: names) :
    (fill top root folder).1.contentAt names = top.contentAt names :=
  (CopyRun.copied opened (fill_run (Path.absolute_name name) (Path.components_name name) opened
    proper)).outside names off

/-- The backup is filled with all that stands elsewhere below the root. -/
theorem fill_backedUp {after : Node} {path : String} (proper : top.Proper)
    (name : Path.IsName folder) (opened : Open top root folder folder place)
    (filled : fill top root folder = (after, .ok path)) : BackedUp place folder top after := by
  have plain := Path.absolute_name name
  have single := Path.components_name name
  have run := fill_run plain single opened proper
  rw [filled] at run
  have adds := CopyRun.adds run
  have outside := (CopyRun.copied opened run).outside
  refine ⟨fun names k _ => adds.grows.kinds names k, outside, adds.grows.links,
    adds.grows.kinds _ _ opened.folder.dir, fun names content apart file => ?_, adds.proper proper⟩
  have stands : top.kindAt (place ++ names) = some (Node.file content).kind :=
    kindAt_file.mpr ⟨content, file⟩
  have below : names ≠ [] := by
    rintro rfl
    rw [List.append_nil, opened.leads.dir] at stands
    cases stands
  obtain ⟨copied, toCopy, _, copy, onward⟩ :=
    fill_visits plain single opened proper filled (Met.of_proper proper below apart stands) rfl
  have original := ((CopyRun.copied opened toCopy).outside _ (off_of_outside apart)).trans file
  exact (CopyRun.copied (opened.mono (CopyRun.adds toCopy).grows) onward).keeps names content apart
    original (copy.trans file)

end

/-! ### The whole backup -/

section

variable {top : Node} {root folder : String} {place : List String}

/-- What was there is gone, and its folder was made anew: nothing but directories has been added. -/
structure Ready (place : List String) (n : String) (before after : Node) : Prop where
  cleared : ∃ gone, Cleared (place ++ [n]) before gone ∧ Extended gone after

theorem Ready.kinds {before after : Node} (ready : Ready place folder before after)
    {names : List String} {k : Kind} (off : ¬ place ++ [folder] <+: names)
    (held : before.kindAt names = some k) : after.kindAt names = some k := by
  obtain ⟨gone, cleared, extended⟩ := ready.cleared
  rw [← (cleared.outside names off).1] at held
  exact extended.grows.kinds names k held

theorem Ready.contents {before after : Node} (ready : Ready place folder before after)
    {names : List String} (off : ¬ place ++ [folder] <+: names) :
    after.contentAt names = before.contentAt names := by
  obtain ⟨gone, cleared, extended⟩ := ready.cleared
  exact (extended.contents names).trans (cleared.outside names off).2

theorem Ready.links {before after : Node} (ready : Ready place folder before after)
    {names : List String} {target : String} (link : after.kindAt names = some (.link target)) :
    ¬ place ++ [folder] <+: names ∧ before.kindAt names = some (.link target) := by
  obtain ⟨gone, cleared, extended⟩ := ready.cleared
  have link := extended.grows.links names target link
  have off : ¬ place ++ [folder] <+: names := by
    rintro ⟨rest, rfl⟩
    exact cleared.not_link rest target link
  exact ⟨off, by rwa [(cleared.outside names off).1] at link⟩

theorem Ready.proper {before after : Node} (ready : Ready place folder before after)
    (proper : before.Proper) : after.Proper := by
  obtain ⟨gone, cleared, extended⟩ := ready.cleared
  exact extended.proper (cleared.proper proper)

/-- The folder can be filled if the root still leads to the same directory after that: filling only
adds to the tree, so where the root leads to before, it leads to afterwards. -/
theorem Ready.opened {made later node : Node} (ready : Ready place folder top made)
    (name : Path.IsName folder) (leads : Leads top root place) {found reached : List String}
    (foundRoot : made.find root = .ok (found, node))
    (inFolder : Leads made (Path.join root folder) reached) (grows : Grows made later)
    (steady : later.locate true root = .ok place) : Open made root folder folder place := by
  have off : ¬ place ++ [folder] <+: place := fun leading => by simpa using leading.length_le
  obtain ⟨located, there⟩ := find_ok foundRoot
  have stands : made.kindAt found ≠ none := by simp [kindAt, there]
  obtain rfl : found = place :=
    Except.ok.inj ((locate_mono grows.kinds located stands).symm.trans steady)
  have root : Leads made root found := ⟨located, ready.kinds off leads.dir⟩
  have free : ∀ names target, made.kindAt (found ++ folder :: names) ≠ some (.link target) := by
    intro names target link
    rw [List.append_cons] at link
    exact (ready.links link).1 (List.prefix_append _ names)
  obtain rfl := root.eq_of_locate_entry (Names.of_name name made found) (Or.inr (free []))
    inFolder.located
  exact ⟨root, inFolder, free⟩

/-- How far a backup comes: it is refused, the old one cannot be removed, no folder can be made, or
the folder is filled. -/
theorem backup_cases {n : String} (names : Names top place folder n) (leads : Leads top root place) :
    (∃ e, top.backup root folder = (top, .error e)) ∨
    (∃ e, top.backup root folder = ((top.removeDirs (Path.join root folder)).1, .error e)) ∨
    (∃ gone e, Cleared (place ++ [n]) top gone ∧
      top.backup root folder = ((gone.makeDirs (Path.join root folder)).1, .error e)) ∨
    ∃ gone made, Cleared (place ++ [n]) top gone ∧
      gone.makeDirs (Path.join root folder) = (made, .ok ()) ∧
      top.backup root folder = fill made root folder := by
  unfold Node.backup
  split
  · exact Or.inl ⟨_, rfl⟩
  · dsimp only
    cases old : top.pathExists (Path.join root folder) with
    | true =>
      rw [if_pos rfl]
      rcases removed : top.removeDirs (Path.join root folder) with ⟨gone, e | ⟨⟩⟩
      · exact Or.inr (Or.inl ⟨e, rfl⟩)
      · have cleared := removeDirs_cleared leads names removed
        dsimp only
        rcases made : gone.makeDirs (Path.join root folder) with ⟨next, e | ⟨⟩⟩
        · exact Or.inr (Or.inr (Or.inl ⟨gone, e, cleared, by rw [made]⟩))
        · exact Or.inr (Or.inr (Or.inr ⟨gone, next, cleared, made, rfl⟩))
    | false =>
      rw [if_neg Bool.false_ne_true]
      dsimp only
      by_cases free : top.get? (place ++ [n]) = none
      · have cleared := Cleared.of_free free
        rcases made : top.makeDirs (Path.join root folder) with ⟨next, e | ⟨⟩⟩
        · exact Or.inr (Or.inr (Or.inl ⟨top, e, cleared, by rw [made]⟩))
        · exact Or.inr (Or.inr (Or.inr ⟨top, next, cleared, made, rfl⟩))
      · obtain ⟨e, held⟩ := makeDirs_held leads names old free
        rw [held]
        exact Or.inl ⟨e, rfl⟩

/-- What was there is gone before a folder is filled, and only directories have been made since. -/
theorem ready_of_makeDirs {gone made : Node} (cleared : Cleared (place ++ [folder]) top gone)
    (done : gone.makeDirs (Path.join root folder) = (made, .ok ())) :
    Ready place folder top made := by
  have extended := makeDirs_extended gone (Path.join root folder)
  rw [done] at extended
  exact ⟨gone, cleared, extended⟩

/-- A backup touches no file outside its folder, however far it comes, if the root still leads to
the same directory. -/
theorem backup_outside (proper : top.Proper) (name : Path.IsName folder)
    (leads : Leads top root place)
    (steady : (top.backup root folder).1.locate true root = .ok place) {names : List String}
    (off : ¬ place ++ [folder] <+: names) :
    (top.backup root folder).1.contentAt names = top.contentAt names := by
  have entry := Names.of_name name top place
  rcases backup_cases entry leads with ⟨e, refused⟩ | ⟨e, left⟩ | ⟨gone, e, cleared, unmade⟩ |
    ⟨gone, made, cleared, done, filled⟩
  · rw [refused]
  · rw [left]
    exact (removeDirs_outside leads entry off).2
  · rw [unmade]
    exact ((makeDirs_extended gone _).contents names).trans (cleared.outside names off).2
  · have ready := ready_of_makeDirs cleared done
    rw [filled] at steady ⊢
    rw [← ready.contents off]
    obtain ⟨e, failed⟩ | ⟨_, _, foundRoot, _⟩ := fill_cases made root folder
    · rw [failed]
    · obtain ⟨_, inFolder⟩ := makeDirs_leads
        (Path.join_ne_empty leads.relative.1 (Path.absolute_name name)) done
      exact fill_outside (ready.proper proper) name
        (ready.opened name leads foundRoot inFolder (fill_adds made root folder).grows steady) off

/-- A backup that was made was filled, so its root and its folder were found. -/
theorem backup_filled {after : Node} {path : String} (name : Path.IsName folder)
    (leads : Leads top root place) (done : top.backup root folder = (after, .ok path)) :
    ∃ made found node reached, Ready place folder top made ∧
      fill made root folder = (after, .ok path) ∧ made.find root = .ok (found, node) ∧
      Leads made (Path.join root folder) reached := by
  rcases backup_cases (Names.of_name name top place) leads with ⟨e, failed⟩ | ⟨e, failed⟩ |
    ⟨_, e, _, failed⟩ | ⟨gone, made, cleared, ready, whole⟩
  · cases (Prod.mk.inj (failed.symm.trans done)).2
  · cases (Prod.mk.inj (failed.symm.trans done)).2
  · cases (Prod.mk.inj (failed.symm.trans done)).2
  have filled : fill made root folder = (after, .ok path) := whole.symm.trans done
  obtain ⟨e, failed⟩ | ⟨found, node, foundRoot, _⟩ := fill_cases made root folder
  · cases (Prod.mk.inj (failed.symm.trans filled)).2
  obtain ⟨reached, inFolder⟩ := makeDirs_leads
    (Path.join_ne_empty leads.relative.1 (Path.absolute_name name)) ready
  exact ⟨made, found, node, reached, ready_of_makeDirs cleared ready, filled, foundRoot, inFolder⟩

/-- The root leads to a directory after a backup, though it need not be the same. -/
theorem backup_leads {after : Node} {path : String} (name : Path.IsName folder)
    (leads : Leads top root place) (done : top.backup root folder = (after, .ok path)) :
    ∃ found, Leads after root found := by
  obtain ⟨made, found, _, reached, _, filled, foundRoot, inFolder⟩ := backup_filled name leads done
  have grows := (fill_adds made root folder).grows
  rw [filled] at grows
  obtain ⟨_, foundBackup⟩ := inFolder.find
  exact ⟨found, (leads_of_find_child name foundRoot foundBackup).mono grows.kinds⟩

/-- A backup holds what stood elsewhere below the root, and nothing else has changed, if the root
still leads to the same directory. -/
theorem backup_ok {after : Node} {path : String} (proper : top.Proper)
    (name : Path.IsName folder) (leads : Leads top root place)
    (steady : after.locate true root = .ok place)
    (done : top.backup root folder = (after, .ok path)) : BackedUp place folder top after := by
  obtain ⟨made, _, _, _, ready, filled, foundRoot, inFolder⟩ := backup_filled name leads done
  have grows := (fill_adds made root folder).grows
  rw [filled] at grows
  have opened := ready.opened name leads foundRoot inFolder grows steady
  have back := fill_backedUp (ready.proper proper) name opened filled
  refine ⟨fun names k off held => back.kinds names k off (ready.kinds off held),
    fun names off => (back.contents names off).trans (ready.contents off),
    fun names target link => (ready.links (back.links _ _ link)).2, back.held, ?_, back.proper⟩
  intro names content outside held
  refine back.copies names content outside ?_
  rw [ready.contents (off_of_outside outside)]
  exact held

/-! ### Roots that stay -/

/-- A root that leads to its directory as well when the backup folder is not there leads to it
afterwards, however the backup ends. -/
theorem backup_stays (name : Path.IsName folder) (leads : Leads top root place)
    (apart : (top.erase (place ++ [folder])).locate true root = .ok place) :
    (top.backup root folder).1.locate true root = .ok place := by
  have entry := Names.of_name name top place
  have kept : ∀ names k, ¬ place ++ [folder] <+: names → top.kindAt names = some k →
      (top.backup root folder).1.kindAt names = some k := by
    intro names k off held
    rcases backup_cases entry leads with ⟨e, refused⟩ | ⟨e, left⟩ | ⟨gone, e, cleared, unmade⟩ |
      ⟨gone, made, cleared, done, filled⟩
    · rwa [refused]
    · rwa [left, (removeDirs_outside leads entry off).1]
    · rw [unmade]
      refine (makeDirs_extended gone _).grows.kinds names k ?_
      rwa [(cleared.outside names off).1]
    · rw [filled]
      exact (fill_adds made root folder).grows.kinds names k
        ((ready_of_makeDirs cleared done).kinds off held)
  refine locate_mono ?_ apart ?_
  · intro names k held
    by_cases below : place ++ [folder] <+: names
    · obtain ⟨rest, rfl⟩ := below
      rw [kindAt, get?_append, get?_erase top (by simp)] at held
      cases held
    · exact kept names k below (by rwa [(erase_alike top below).1] at held)
  · have off : ¬ place ++ [folder] <+: place := fun leading => by simpa using leading.length_le
    rw [(erase_alike top off).1, leads.dir]
    exact Option.some_ne_none _

/-- So does a root whose path meets no link, if the backup is made. -/
theorem backup_stays_of_linkFree {after : Node} {path : String} (name : Path.IsName folder)
    (leads : Leads top root place) (free : top.LinkFree root)
    (done : top.backup root folder = (after, .ok path)) : after.locate true root = .ok place := by
  obtain ⟨made, _, _, _, ready, filled, _, _⟩ := backup_filled name leads done
  obtain ⟨found, later⟩ := backup_leads name leads done
  have grows := (fill_adds made root folder).grows
  rw [filled] at grows
  have freeLater : after.LinkFree root := fun parts leading target link =>
    free parts leading target (ready.links (grows.links _ _ link)).2
  obtain rfl : found = place :=
    (locate_of_linkFree freeLater later.located).trans (locate_of_linkFree free leads.located).symm
  exact later.located

end

end AutoDoc.Backup
