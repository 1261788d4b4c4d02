import AutoDoc.Proofs.Backup.Replacement

/-!
# What a backup is

Before anything is done it can be told what a backup ought to leave: the tree with the old backup
emptied and, if all goes well, with a snapshot of the root in its place. Every tree on the way there
lies between what is left of the old one and that tree (`PartOf`), so that nothing outside the folder
can change (`alike_between`), wherever the backup stops. A walk that ends well has visited all that
the snapshot holds, so nothing of that tree is missing then (`fill_exact`). For this the root must
lead to its directory without the old backup, and the folder must name an entry of it: a slash behind
its name would follow a link. Paths are relative to the top of the tree, as they are for runs.
-/

namespace AutoDoc

namespace Backup

open Node

/-! ### Snapshots -/

/-- What a folder holds after a backup: the directories and files that were below the root outside
the folder, and no links. -/
structure CopyOf (place : List String) (n : String) (before after : Node) : Prop where
  dirs : ∀ names, after.kindAt (place ++ n :: names) = some .dir ↔
    ¬ [n] <+: names ∧ before.kindAt (place ++ names) = some .dir
  files : ∀ names content, after.contentAt (place ++ n :: names) = some content ↔
    ¬ [n] <+: names ∧ before.contentAt (place ++ names) = some content
  links : ∀ names target, after.kindAt (place ++ n :: names) ≠ some (.link target)

/-- What a backup of a directory ought to hold: all but the folder and symbolic links. -/
def snapshot (n : String) (root : Node) : Node := (root.erase [n]).withoutLinks

section

variable {n : String} {node : Node}

theorem isDir_erase (isDir : node.isDir = true) (n : String) : (node.erase [n]).isDir = true := by
  cases node with
  | dir entries => rfl
  | file content => cases isDir
  | link target => cases isDir

theorem isLink_of_isDir (isDir : node.isDir = true) : node.isLink = false := by
  cases node <;> first | rfl | cases isDir

theorem isDir_withoutLinks (isDir : node.isDir = true) : node.withoutLinks.isDir = true := by
  cases node <;> first | rfl | cases isDir

theorem snapshot_noLinks (isDir : node.isDir = true) (names : List String) (target : String) :
    (snapshot n node).get? names ≠ some (.link target) :=
  get?_withoutLinks_ne_link (isLink_of_isDir (isDir_erase isDir n)) names target

theorem proper_snapshot (n : String) (proper : node.Proper) : (snapshot n node).Proper :=
  proper.erase.withoutLinks

theorem get?_erase_below {names : List String} (node : Node) (below : [n] <+: names) :
    (node.erase [n]).get? names = none := by
  obtain ⟨rest, rfl⟩ := below
  exact get?_below_none (get?_erase node (List.cons_ne_nil n [])) rest

/-- The directories of a snapshot are those outside the folder. -/
theorem snapshot_dir_iff (proper : node.Proper) (isDir : node.isDir = true) (names : List String) :
    (snapshot n node).kindAt names = some .dir ↔
      ¬ [n] <+: names ∧ node.kindAt names = some .dir := by
  rw [snapshot, kindAt_withoutLinks_dir proper.erase (isLink_of_isDir (isDir_erase isDir n))]
  by_cases below : [n] <+: names
  · simp [below, kindAt, get?_erase_below]
  · simp [below, (erase_alike node below).1]

/-- The files of a snapshot are those outside the folder. -/
theorem snapshot_file_iff (proper : node.Proper) (isDir : node.isDir = true) (names : List String)
    (content : ByteArray) : (snapshot n node).contentAt names = some content ↔
      ¬ [n] <+: names ∧ node.contentAt names = some content := by
  rw [snapshot, contentAt_withoutLinks proper.erase (isLink_of_isDir (isDir_erase isDir n))]
  by_cases below : [n] <+: names
  · simp [below, contentAt, get?_erase_below]
  · simp [below, (erase_alike node below).2]

end

/-! ### Filling a folder inside a larger tree -/

section

variable {top after whole : Node} {root folder n : String} {place : List String}

/-- A copying step adds only what a tree with a copy in the folder has there. -/
theorem CopyStep.partOf (opened : Open top root folder n place) (part : PartOf top whole)
    (copy : CopyOf place n whole whole) (step : CopyStep root folder n place top after) :
    PartOf after whole := by
  obtain ⟨names, entry, met, rfl⟩ := step
  have there := part.within _ _ met.stands
  rcases copyEntry_cases opened met with ⟨same, _⟩ | ⟨isDir, made⟩ | ⟨content, held, site, free, put⟩
  · rwa [same]
  · rw [made]
    have dir : whole.kindAt (place ++ n :: names) = some .dir := by
      refine (copy.dirs names).mpr ⟨met.outside, there.trans ?_⟩
      cases entry <;> first | rfl | cases isDir
    rw [List.append_cons] at dir
    exact makeDirs_partOf part ((opened.folder.mono part.within).paved_names met.valid dir)
  · rw [put]
    have file : whole.contentAt (place ++ n :: names) = some content := by
      refine (copy.files names content).mpr ⟨met.outside, ?_⟩
      rw [(part.alike _ (by simp [met.stands])).2, held]
    refine part.put site ?_ (fun _ _ => rfl) (kindAt_file.mpr ⟨content, file⟩) file (by simp [kind])
    rcases free with file | none
    · simp [file]
    · simp [kindAt_none.mpr none]

theorem CopyRun.partOf (opened : Open top root folder n place) (part : PartOf top whole)
    (copy : CopyOf place n whole whole) (run : CopyRun root folder n place top after) :
    PartOf after whole := by
  induction run with
  | refl => exact part
  | tail run step ih => exact CopyStep.partOf (opened.mono (CopyRun.adds run).grows) ih copy step

/-- What stands in the copy stands elsewhere below the root, to be met there. -/
theorem met_of_copy (proper : top.Proper)
    (same : ∀ names, ¬ place ++ [n] <+: names → Alike names top whole)
    (copy : CopyOf place n whole whole) {names : List String} (below : names ≠ [])
    (held : whole.kindAt (place ++ n :: names) ≠ none) :
    ∃ entry, Met top place n names entry ∧ entry.isLink = false := by
  obtain ⟨k, there⟩ := Option.ne_none_iff_exists'.mp held
  cases k with
  | dir =>
    obtain ⟨outside, stands⟩ := (copy.dirs names).mp there
    rw [(same _ (off_of_outside outside)).1] at stands
    exact ⟨.empty, Met.of_proper proper below outside stands, rfl⟩
  | file =>
    obtain ⟨content, file⟩ := kindAt_file.mp there
    obtain ⟨outside, stands⟩ := (copy.files names content).mp file
    rw [(same _ (off_of_outside outside)).2] at stands
    exact ⟨.file content,
      Met.of_proper proper below outside (kindAt_file.mpr ⟨content, stands⟩), rfl⟩
  | link target => exact absurd there (copy.links names target)

/-- Filling a folder leads to the tree with a copy in it. Where that stops part of the way, some of
the copy is missing and nothing else. -/
theorem fill_exact (plain : (Path.parse folder).absolute = false)
    (single : Path.components folder = [.name n]) (proper : top.Proper) (properWhole : whole.Proper)
    (opened : Open top root folder n place) (part : PartOf top whole)
    (same : ∀ names, ¬ place ++ [n] <+: names → Alike names top whole)
    (copy : CopyOf place n whole whole) :
    PartOf (fill top root folder).1 whole ∧ ∀ path, (fill top root folder).2 = .ok path →
      path = Path.join root folder ∧ (fill top root folder).1 = whole := by
  have run := fill_run plain single opened proper
  have partly := CopyRun.partOf opened part copy run
  refine ⟨partly, fun path ended => ⟨?_, ?_⟩⟩
  · rw [fill_walk plain single opened.leads] at ended
    cases walked : (copyBelow (Path.join root folder) deepest root (Path.join root folder) top).2 with
    | error e => simp [walked, Except.map] at ended
    | ok => simpa [walked, Except.map, eq_comm] using ended
  have adds := CopyRun.adds run
  refine partly.eq (adds.proper proper) properWhole fun names held => ?_
  by_cases below : place ++ [n] <+: names
  · obtain ⟨rest, rfl⟩ := below
    by_cases here : rest = []
    · rw [here, List.append_nil, adds.grows.kinds _ _ opened.folder.dir]
      exact Option.some_ne_none _
    · rw [← List.append_cons] at held ⊢
      obtain ⟨entry, met, noLink⟩ := met_of_copy proper same copy here held
      obtain ⟨copied, _, there, _, later⟩ := fill_visits plain single opened proper
        (Prod.ext rfl ended) met noLink
      rw [(CopyRun.adds later).grows.kinds _ _ there]
      exact Option.some_ne_none _
  · rw [(same names below).1] at held
    obtain ⟨k, there⟩ := Option.ne_none_iff_exists'.mp held
    rw [adds.grows.kinds _ _ there]
    exact Option.some_ne_none _

end

/-! ### The whole backup -/

section

variable {top : Node} {root folder n : String} {place : List String}

/-- A snapshot in the place of the emptied folder is a copy. -/
theorem copyOf_snapshot {node : Node} (proper : top.Proper) (site : Site top (place ++ [n]))
    (here : (top.put (place ++ [n]) .empty).get? place = some node) (isDir : node.isDir = true) :
    CopyOf place n top
      ((top.put (place ++ [n]) .empty).put (place ++ [n]) (snapshot n node)) := by
  have emptied := proper.put site.names .empty
  have properNode := (emptied.get? here).1
  have siteEmptied : Site (top.put (place ++ [n]) .empty) (place ++ [n]) := by
    refine ⟨site.names, fun before m same => ?_⟩
    refine kindAt_above (List.cons_ne_nil m []) ?_
    rw [← same, kindAt, site.get?_put]
    exact Option.some_ne_none _
  have outside : ∀ names, ¬ [n] <+: names →
      Alike (place ++ names) top (top.put (place ++ [n]) .empty) :=
    fun names off => put_alike top .empty fun below =>
      off ((List.prefix_append_right_inj place).mp below)
  have below : ∀ names, (top.put (place ++ [n]) .empty).get? (place ++ names) = node.get? names := by
    intro names
    rw [get?_append, here]
    rfl
  refine ⟨fun names => ?_, fun names content => ?_, fun names target link => ?_⟩
  · rw [List.append_cons place n names, kindAt, siteEmptied.get?_put_below, ← kindAt,
      snapshot_dir_iff properNode isDir]
    refine and_congr_right fun off => ?_
    rw [← (outside names off).1, kindAt, kindAt, below]
  · rw [List.append_cons place n names, contentAt, siteEmptied.get?_put_below, ← contentAt,
      snapshot_file_iff properNode isDir]
    refine and_congr_right fun off => ?_
    rw [← (outside names off).2, contentAt, contentAt, below]
  · rw [List.append_cons place n names, kindAt_link, siteEmptied.get?_put_below] at link
    exact snapshot_noLinks isDir names target link

/-- A copy of what stood outside the folder is one of what stands there still. -/
theorem CopyOf.again {after : Node} (copy : CopyOf place n top after)
    (same : ∀ names, ¬ place ++ [n] <+: names → Alike names top after) :
    CopyOf place n after after := by
  refine ⟨fun names => ?_, fun names content => ?_, copy.links⟩
  · rw [copy.dirs]
    exact and_congr_right fun outside => by rw [(same _ (off_of_outside outside)).1]
  · rw [copy.files]
    exact and_congr_right fun outside => by rw [(same _ (off_of_outside outside)).2]

/-- What is left of an old backup is a part of the tree with an empty folder in its place. -/
theorem partOf_emptied {gone : Node} (site : Site top (place ++ [n]))
    (cleared : Cleared (place ++ [n]) top gone) :
    PartOf gone (top.put (place ++ [n]) .empty) := by
  refine PartOf.of_place (place ++ [n]) (fun names off => ?_) (fun rest held => ?_)
    fun rest target link => ?_
  · exact (cleared.outside names off).symm.trans (put_alike top .empty off)
  · have same : gone.get? (place ++ [n] ++ rest) = Node.empty.get? rest := by
      rw [kindAt, get?_append] at held
      rw [get?_append]
      rcases cleared.here with none | some
      · simp [none] at held
      · rw [some]
        rfl
    rw [Alike, kindAt, kindAt, contentAt, contentAt, site.get?_put_below, same]
    exact ⟨rfl, rfl⟩
  · rw [kindAt_link, site.get?_put_below] at link
    rcases get?_empty rest with none | some <;> simp_all [Node.empty]

theorem kindAt_emptied (site : Site top (place ++ [n])) :
    (top.put (place ++ [n]) .empty).kindAt (place ++ [n]) = some .dir := by
  rw [kindAt, site.get?_put]
  rfl

/-- Once it is emptied the folder is named as before: no link stands there. -/
theorem names_emptied (site : Site top (place ++ [n])) (names : Names top place folder n) :
    Names (top.put (place ++ [n]) .empty) place folder n :=
  ⟨names.relative, names.single, Or.inr (by simp [kindAt_emptied site])⟩

/-- Making the folder anew changes nothing outside, also where it fails. -/
theorem makeDirs_outside {gone : Node} (site : Site top (place ++ [n]))
    (names : Names top place folder n) (steady : Leads (top.put (place ++ [n]) .empty) root place)
    (cleared : Cleared (place ++ [n]) top gone) {others : List String}
    (off : ¬ place ++ [n] <+: others) :
    Alike others top (gone.makeDirs (Path.join root folder)).1 := by
  have part := makeDirs_partOf (partOf_emptied site cleared)
    (steady.paved_entry (names_emptied site names) (kindAt_emptied site))
  have grows := (makeDirs_extended gone (Path.join root folder)).grows
  have left := cleared.outside others off
  exact left.trans (alike_between grows.kinds part (left.symm.trans (put_alike top .empty off)))

/-- Making the folder anew gives the tree in which the old backup was emptied. -/
theorem makeDirs_emptied {gone made : Node} (proper : top.Proper)
    (site : Site top (place ++ [n])) (names : Names top place folder n)
    (steady : Leads (top.put (place ++ [n]) .empty) root place)
    (cleared : Cleared (place ++ [n]) top gone)
    (done : gone.makeDirs (Path.join root folder) = (made, .ok ())) :
    made = top.put (place ++ [n]) .empty ∧ Leads made (Path.join root folder) (place ++ [n]) := by
  have plain : ∀ target, (top.put (place ++ [n]) .empty).kindAt (place ++ [n]) ≠
      some (.link target) := by simp [kindAt_emptied site]
  have entry := names_emptied site names
  have part := makeDirs_partOf (partOf_emptied site cleared)
    (steady.paved_entry entry (kindAt_emptied site))
  have extended := makeDirs_extended gone (Path.join root folder)
  rw [done] at part extended
  obtain ⟨reached, leads⟩ :=
    makeDirs_leads (Path.join_ne_empty steady.relative.1 names.relative) done
  obtain rfl := steady.eq_of_locate_entry entry (Or.inr plain) (leads.mono part.within).located
  refine ⟨part.eq (extended.proper (cleared.proper proper)) (proper.put site.names .empty) ?_, leads⟩
  intro others held
  by_cases below : place ++ [n] <+: others
  · obtain ⟨rest, rfl⟩ := below
    cases rest with
    | nil => simp [leads.dir]
    | cons m more => exact absurd (by rw [kindAt, site.get?_put_below]; rfl) held
  · rw [(put_alike top .empty below).1, ← (cleared.outside others below).1] at held
    obtain ⟨k, there⟩ := Option.ne_none_iff_exists'.mp held
    simp [extended.grows.kinds others k there]

/-- A folder that was emptied has no links in it. -/
theorem open_emptied (site : Site top (place ++ [n]))
    (leads : Leads (top.put (place ++ [n]) .empty) root place)
    (folderLeads : Leads (top.put (place ++ [n]) .empty) (Path.join root folder) (place ++ [n])) :
    Open (top.put (place ++ [n]) .empty) root folder n place := by
  refine ⟨leads, folderLeads, fun names target link => ?_⟩
  rw [List.append_cons place n names, kindAt_link, site.get?_put_below] at link
  rcases get?_empty names with none | some <;> simp_all [Node.empty]

/-- Filling the emptied folder changes nothing outside, and if it ends well the folder is a copy. -/
theorem fill_emptied (proper : top.Proper) (site : Site top (place ++ [n]))
    (names : Names top place folder n) (steady : Leads (top.put (place ++ [n]) .empty) root place)
    (inFolder : Leads (top.put (place ++ [n]) .empty) (Path.join root folder) (place ++ [n])) :
    (∀ others, ¬ place ++ [n] <+: others →
      Alike others top (fill (top.put (place ++ [n]) .empty) root folder).1) ∧
    ∀ path, (fill (top.put (place ++ [n]) .empty) root folder).2 = .ok path →
      path = Path.join root folder ∧
      Leads (fill (top.put (place ++ [n]) .empty) root folder).1 path (place ++ [n]) ∧
      CopyOf place n top (fill (top.put (place ++ [n]) .empty) root folder).1 := by
  have emptied := proper.put site.names .empty
  obtain ⟨entries, here⟩ := kindAt_dir.mp steady.dir
  have siteEmptied : Site (top.put (place ++ [n]) .empty) (place ++ [n]) :=
    (locate_site steady.located).child steady.dir names.isName
  have isDir : (Node.dir entries).isDir = true := rfl
  have copy := copyOf_snapshot proper site here isDir
  have off := fun others (off : ¬ place ++ [n] <+: others) =>
    put_alike (top.put (place ++ [n]) .empty) (snapshot n (.dir entries)) off
  have part := PartOf.of_vacant siteEmptied (site.get?_put .empty)
    (isDir_withoutLinks (isDir_erase isDir n)) (snapshot_noLinks isDir)
  have properWhole := emptied.put site.names (proper_snapshot n (emptied.get? here).1)
  obtain ⟨partly, ended⟩ := fill_exact names.relative names.single emptied properWhole
    (open_emptied site steady inFolder) part off
    (copy.again fun others off' => (put_alike top .empty off').trans (off others off'))
  have grows := (fill_adds (top.put (place ++ [n]) .empty) root folder).grows
  refine ⟨fun others off' => ?_, fun path same => ?_⟩
  · exact (put_alike top .empty off').trans (alike_between grows.kinds partly (off others off'))
  · obtain ⟨rfl, whole⟩ := ended path same
    refine ⟨rfl, inFolder.mono grows.kinds, ?_⟩
    rw [whole]
    exact copy

/-- A folder that is not one name is refused and nothing changes. For every other that names an entry
of the root's directory, nothing outside this entry changes, however the backup ends, if the root
leads to its directory without the old backup. If it ends well, the folder is a copy of all that was
below the root outside of it. -/
theorem backup_exact (proper : top.Proper) (root folder : String) :
    (folder = "" ∨ Path.componentCount folder ≠ 1 →
      top.backup root folder = (top, .error (notASingleName folder))) ∧
    ∀ {place : List String} {n : String}, Leads top root place → Names top place folder n →
      Leads (top.put (place ++ [n]) .empty) root place →
      (∀ names, ¬ place ++ [n] <+: names → Alike names top (top.backup root folder).1) ∧
      ∀ path, (top.backup root folder).2 = .ok path → path = Path.join root folder ∧
        Leads (top.backup root folder).1 path (place ++ [n]) ∧
        CopyOf place n top (top.backup root folder).1 := by
  refine ⟨fun refused => if_pos (by simpa using refused), ?_⟩
  intro place n leads names steady
  have site : Site top (place ++ [n]) := (locate_site leads.located).child leads.dir names.isName
  rcases backup_cases names leads with ⟨e, refused⟩ | ⟨e, left⟩ | ⟨gone, e, cleared, unmade⟩ |
    ⟨gone, made, cleared, done, filled⟩
  · rw [refused]
    exact ⟨fun others _ => Alike.refl others top, fun path same => by cases same⟩
  · rw [left]
    exact ⟨fun others off => removeDirs_outside leads names off, fun path same => by cases same⟩
  · rw [unmade]
    exact ⟨fun others off => makeDirs_outside site names steady cleared off,
      fun path same => by cases same⟩
  · obtain ⟨rfl, inFolder⟩ := makeDirs_emptied proper site names steady cleared done
    rw [filled]
    exact fill_emptied proper site names steady inFolder

end

/-- A folder that is written with a slash, over an old backup with a link that leads out of it. -/
theorem backup_exact_spelled :
    let top : Node := .dir [("a.py", .file ⟨#[1]⟩), ("bk", .dir [("old.py", .link "../a.py")]),
      ("d", .dir [("l.py", .link "../a.py")])]
    let after := (top.backup "." "bk/").1
    top.backup "." "a/b" = (top, .error (notASingleName "a/b")) ∧
      (top.backup "." "bk/").2 = .ok "./bk/" ∧ Leads after "./bk/" ["bk"] ∧
      CopyOf [] "bk" top after ∧ Alike ["d", "l.py"] top after := by
  intro top after
  have proper : top.Proper := by decide
  have root : Leads top "." [] := ⟨rfl, rfl⟩
  have dir : top.kindAt ["bk"] = some .dir := rfl
  have names : Names top [] "bk/" "bk" := ⟨by decide +kernel, by decide +kernel, Or.inr (by simp [dir])⟩
  have steady : Leads (top.put ["bk"] .empty) "." [] := ⟨rfl, rfl⟩
  have done : (top.backup "." "bk/").2 = .ok "./bk/" := by decide +kernel
  obtain ⟨outside, copy⟩ := (backup_exact proper "." "bk/").2 root names steady
  obtain ⟨_, leads, copied⟩ := copy "./bk/" done
  exact ⟨(backup_exact proper "." "a/b").1 (Or.inr (by decide +kernel)), done, leads, copied,
    outside ["d", "l.py"] (by decide)⟩

/-- With a slash behind its name a folder is what a link leads to, not the link: its directory is
emptied, be it the root itself. And where the root is found through the old backup only, another
directory is backed up: what stood below the root is not copied, and a file outside the folder is
written over through a link. -/
theorem backup_not_exact :
    (let top : Node := .dir [("a.py", .file ⟨#[1]⟩), ("bk", .link "d"),
       ("d", .dir [("y", .file ⟨#[2]⟩)])]
     top.Proper ∧ Leads top "." [] ∧ Path.componentCount "bk/" = 1 ∧
       (top.backup "." "bk/").2 = .error .notADirectory ∧
       top.kindAt ["d", "y"] = some .file ∧ (top.backup "." "bk/").1.kindAt ["d", "y"] = none) ∧
    (let top : Node := .dir [("a.py", .file ⟨#[1]⟩), ("bk", .link ".")]
     top.Proper ∧ Leads top "." [] ∧ (top.backup "." "bk/").2 = .ok "./bk/" ∧
       (top.backup "." "bk/").1.kindAt ["a.py"] = none) ∧
    (let top : Node := .dir [("r", .dir [("bk", .dir [("l", .link ".")]), ("out", .file ⟨#[1]⟩),
       ("r", .dir [("a", .file ⟨#[2]⟩), ("bk", .dir [("a", .link "../../out")])])])]
     let root := "r/bk/l/../../r"
     top.Proper ∧ Leads top root ["r"] ∧ (top.backup root "bk").2 = .ok "r/bk/l/../../r/bk" ∧
       (top.backup root "bk").1.kindAt ["r", "bk", "out"] = none ∧
       (top.backup root "bk").1.contentAt ["r", "out"] = some ⟨#[2]⟩) := by
  refine ⟨?_, ?_, ?_⟩
  · exact ⟨by decide, ⟨rfl, rfl⟩, by decide +kernel, by decide +kernel, rfl, by decide +kernel⟩
  · exact ⟨by decide, ⟨rfl, rfl⟩, by decide +kernel, by decide +kernel⟩
  · exact ⟨by decide, ⟨by decide +kernel, rfl⟩, by decide +kernel, by decide +kernel,
      by decide +kernel⟩

end Backup

end AutoDoc
