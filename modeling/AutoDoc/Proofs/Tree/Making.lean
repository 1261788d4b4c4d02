import AutoDoc.Proofs.Tree.Growth

/-!
# Making directories inside a larger tree

Directories are made along a path as far as they are missing, its parents first. Where these come to
stand is told by a larger tree in which the path leads to a directory already: the smaller tree
grows, but not beyond the larger one (`makeDirs_partOf`). What a tree that was reached in this way
looks like is then known wherever the first tree and the larger one look alike (`alike_between`).
-/

namespace AutoDoc.Node

open AutoDoc.Path (Part)

/-! ### Parts of trees -/

/-- All that stands in a tree stands in the whole as well, and of the whole no link is missing. -/
structure PartOf (top whole : Node) : Prop where
  alike : ∀ names, top.kindAt names ≠ none → Alike names top whole
  links : ∀ names target, whole.kindAt names = some (.link target) →
    top.kindAt names = some (.link target)

section

variable {top whole new : Node}

theorem PartOf.refl (top : Node) : PartOf top top :=
  ⟨fun names _ => Alike.refl names top, fun _ _ link => link⟩

theorem PartOf.within (part : PartOf top whole) : Within top whole := by
  intro names k held
  rw [(part.alike names (by simp [held])).1, held]

theorem PartOf.grows (part : PartOf top whole) : Grows top whole := ⟨part.within, part.links⟩

theorem contentAt_eq_none {names : List String} (absent : top.kindAt names = none) :
    top.contentAt names = none := by
  rw [contentAt, kindAt_none.mp absent]
  rfl

/-- Where a tree that grows and the whole that it grows into look alike, nothing changes. -/
theorem alike_between {first : Node} {names : List String} (grows : Within first top)
    (part : PartOf top whole) (same : Alike names first whole) : Alike names first top := by
  have absent : first.kindAt names = none → top.kindAt names = none := by
    intro none
    by_contra held
    exact held ((part.alike names held).1.symm.trans (same.1.trans none))
  rcases stands : first.kindAt names with _ | k
  · have none := absent stands
    exact ⟨by rw [stands, none], by rw [contentAt_eq_none stands, contentAt_eq_none none]⟩
  · have held := grows names k stands
    obtain ⟨kinds, contents⟩ := part.alike names (by simp [held])
    exact ⟨by rw [stands, held], contents.symm.trans same.2⟩

/-- A part in which nothing of the whole is missing is the whole. -/
theorem PartOf.eq (part : PartOf top whole) (proper : top.Proper) (properWhole : whole.Proper)
    (all : ∀ names, whole.kindAt names ≠ none → top.kindAt names ≠ none) : top = whole := by
  have absent : ∀ names, top.kindAt names = none → whole.kindAt names = none := fun names none => by
    by_contra held
    exact all names held none
  refine (proper.ext properWhole (fun names => ?_) fun names => ?_).symm
  · by_cases none : top.kindAt names = none
    · rw [none, absent names none]
    · exact (part.alike names none).1
  · by_cases none : top.kindAt names = none
    · rw [contentAt_eq_none none, contentAt_eq_none (absent names none)]
    · exact (part.alike names none).2

/-- A node that stands in the whole can be put in its place, unless a directory is there. -/
theorem PartOf.put {place : List String} (part : PartOf top whole) (site : Site top place)
    (free : top.kindAt place ≠ some .dir) (leaf : ∀ n rest, new.get? (n :: rest) = none)
    (kind : whole.kindAt place = some new.kind) (content : whole.contentAt place = new.content?)
    (plain : ∀ target, new.kind ≠ .link target) : PartOf (top.put place new) whole := by
  refine ⟨fun names held => ?_, fun names target link => ?_⟩
  · by_cases below : place <+: names
    · obtain ⟨rest, rfl⟩ := below
      cases rest with
      | nil =>
        rw [Alike, List.append_nil, kind, content, kindAt, contentAt, site.get?_put]
        exact ⟨rfl, rfl⟩
      | cons n rest => simp [kindAt, site.get?_put_below, leaf] at held
    · have same := put_alike top new below
      rw [same.1] at held
      obtain ⟨kinds, contents⟩ := part.alike names held
      exact ⟨kinds.trans same.1.symm, contents.trans same.2.symm⟩
  · have there := part.links names target link
    have off : ¬ place <+: names := by
      rintro ⟨rest, rfl⟩
      cases rest with
      | nil =>
        rw [List.append_nil, kind] at link
        exact plain target (Option.some.inj link)
      | cons n rest => exact free (kindAt_above (List.cons_ne_nil n rest) (by simp [there]))
    rw [(put_alike top new off).1, there]

/-- Trees that look alike off a place are compared there. -/
theorem PartOf.of_place (place : List String)
    (outside : ∀ names, ¬ place <+: names → Alike names top whole)
    (inside : ∀ rest, top.kindAt (place ++ rest) ≠ none → Alike (place ++ rest) top whole)
    (plain : ∀ rest target, whole.kindAt (place ++ rest) ≠ some (.link target)) :
    PartOf top whole := by
  refine ⟨fun names held => ?_, fun names target link => ?_⟩
  · by_cases below : place <+: names
    · obtain ⟨rest, rfl⟩ := below
      exact inside rest held
    · exact outside names below
  · have off : ¬ place <+: names := by
      rintro ⟨rest, rfl⟩
      exact plain rest target link
    rwa [(outside names off).1] at link

/-- A tree is a part of what it becomes when an empty directory is filled. -/
theorem PartOf.of_vacant {place : List String} (site : Site top place)
    (vacant : top.get? place = some .empty) (dir : new.isDir = true)
    (plain : ∀ names target, new.get? names ≠ some (.link target)) :
    PartOf top (top.put place new) := by
  refine PartOf.of_place place (fun names off => put_alike top new off) (fun rest held => ?_)
    fun rest target link => ?_
  · rw [kindAt, get?_append, vacant] at held
    rw [Alike, kindAt, contentAt, site.get?_put_below, kindAt, contentAt, get?_append, vacant]
    cases rest with
    | nil => cases new <;> simp_all [isDir, Node.get?, Node.empty, kind, content?]
    | cons n more => exact absurd rfl held
  · rw [kindAt_link, site.get?_put_below] at link
    exact plain rest target link

end

/-! ### Walks that do not follow the last link -/

section

variable {top whole : Node}

/-- A walk that follows no link at its end reaches the same in every larger tree, also where nothing
stands yet. -/
theorem walk_within (within : Within top whole)
    {onLink onLink' : List String → List Part → Except OsError (List String)}
    (onward : ∀ place parts reached, onLink place parts = .ok reached →
      onLink' place parts = .ok reached)
    {parts : List Part} {place reached : List String}
    (walked : walk top false onLink place parts = .ok reached) :
    walk whole false onLink' place parts = .ok reached := by
  induction parts generalizing place with
  | nil => exact walked
  | cons part rest ih =>
    obtain ⟨here, step⟩ := walk_cons.mp walked
    refine walk_cons.mpr ⟨within _ _ here, ?_⟩
    cases step with
    | current further => exact .current (ih further)
    | parent inside further => exact .parent inside (ih further)
    | @missing n short free last ended =>
      -- In the whole something may stand at the last name, but the walk ends there all the same.
      rcases there : whole.kindAt (place ++ [n]) with _ | _ | target | _
      · exact .missing short there last ended
      · obtain rfl := List.isEmpty_iff.mp last
        exact .entered short there (by simp) (ended ▸ rfl)
      · exact .unfollowed short there (by simp [last]) ended
      · obtain rfl := List.isEmpty_iff.mp last
        exact .entered short there (by simp) (ended ▸ rfl)
    | unfollowed short found last ended => exact .unfollowed short (within _ _ found) last ended
    | followed short found more relative further =>
      exact .followed short (within _ _ found) more relative (onward _ _ _ further)
    | entered short found plain further =>
      exact .entered short (within _ _ found) plain (ih further)

/-- A walk that does not follow the last link ends in a larger tree where it did before. -/
theorem walkWithin_within (within : Within top whole) {links : Nat} {parts : List Part}
    {place reached : List String} (walked : walkWithin top false links place parts = .ok reached) :
    walkWithin whole false links place parts = .ok reached := by
  induction links generalizing place parts reached with
  | zero => cases walked
  | succ links ih => exact walk_within within (fun _ _ _ further => ih further) walked

/-- A walk that does not end at a link ends at the same place when links are followed to the end. -/
theorem walk_follow {onLink onLink' : List String → List Part → Except OsError (List String)}
    (onward : ∀ place parts reached, onLink place parts = .ok reached →
      (∀ target, top.kindAt reached ≠ some (.link target)) → onLink' place parts = .ok reached)
    {parts : List Part} {place reached : List String}
    (walked : walk top false onLink place parts = .ok reached)
    (plain : ∀ target, top.kindAt reached ≠ some (.link target)) :
    walk top true onLink' place parts = .ok reached := by
  induction parts generalizing place with
  | nil => exact walked
  | cons part rest ih =>
    obtain ⟨here, step⟩ := walk_cons.mp walked
    refine walk_cons.mpr ⟨here, ?_⟩
    cases step with
    | current further => exact .current (ih further)
    | parent inside further => exact .parent inside (ih further)
    | missing short free last ended => exact .missing short free last ended
    | unfollowed short found last ended => exact absurd found (ended ▸ plain _)
    | followed short found more relative further =>
      exact .followed short found (by simp) relative (onward _ _ _ further plain)
    | entered short found other further => exact .entered short found other (ih further)

/-- If it does not end at a link, it does not matter whether the last one is followed. -/
theorem walkWithin_follow {links : Nat} {parts : List Part} {place reached : List String}
    (walked : walkWithin top false links place parts = .ok reached)
    (plain : ∀ target, top.kindAt reached ≠ some (.link target)) :
    walkWithin top true links place parts = .ok reached := by
  induction links generalizing place parts reached with
  | zero => cases walked
  | succ links ih => exact walk_follow (fun _ _ _ further plain => ih further plain) walked plain

end

/-! ### Paved paths -/

/-- Every part of the way along a path leads to a directory, or ends at a link. -/
def Paved (top : Node) (path : String) : Prop :=
  ∀ before reached, before <+: (Path.parse path).parts →
    walkWithin top false 41 [] before = .ok reached →
    top.kindAt reached = some .dir ∨ ∃ target, top.kindAt reached = some (.link target)

section

variable {top : Node} {root path : String} {place : List String}

theorem Paved.parent (paved : Paved top path) : Paved top (Path.parent path) :=
  fun before reached leading walked =>
    paved before reached (leading.trans (Path.parts_parent path)) walked

/-- A path goes on behind one that leads to a directory. It is paved if what stands behind is. -/
theorem Leads.paved (leads : Leads top root place) {behind : List Part}
    (parts : (Path.parse path).parts = (Path.parse root).parts ++ behind)
    (onward : ∀ more reached left, more <+: behind → more ≠ [] →
      Node.walk top false (walkWithin top false left) place more = .ok reached →
      top.kindAt reached = some .dir) : Paved top path := by
  rintro before reached ⟨rest, whole⟩ walked
  by_cases link : ∃ target, top.kindAt reached = some (.link target)
  · exact Or.inr link
  refine Or.inl ?_
  have followed := walkWithin_follow walked (not_exists.mp link)
  have atRoot : (Path.parse root).parts = before → top.kindAt reached = some .dir := by
    intro same
    rw [← same] at followed
    rw [← Except.ok.inj (leads.walked.symm.trans followed)]
    exact leads.dir
  rw [parts, List.append_eq_append_iff] at whole
  rcases whole with ⟨more, above, _⟩ | ⟨more, rfl, rfl⟩
  · cases more with
    | nil => exact atRoot (by rw [above, List.append_nil])
    | cons part more =>
      exact dir_of_walkWithin_append followed (above ▸ leads.walked) (List.cons_ne_nil part more)
  · cases more with
    | nil => exact atRoot (by rw [List.append_nil])
    | cons part more =>
      obtain ⟨left, further⟩ :=
        walkWithin_append leads.walked leads.dir false (List.cons_ne_nil part more)
      exact onward _ reached left (List.prefix_append _ _) (List.cons_ne_nil _ _)
        (further ▸ walked)

/-- The path of an entry is paved, if a directory stands there. -/
theorem Leads.paved_entry (leads : Leads top root place) {folder n : String}
    (names : Names top place folder n) (dir : top.kindAt (place ++ [n]) = some .dir) :
    Paved top (Path.join root folder) := by
  obtain ⟨dots, written⟩ := Path.parts_of_components names.relative names.single
  have parts := Path.parts_join_relative leads.relative.1 names.relative
  rw [written] at parts
  refine leads.paved parts fun more reached left leading some walked => ?_
  obtain rfl | ⟨dots, rfl, below⟩ := List.prefix_cons_iff.mp leading
  · exact absurd rfl some
  · rw [(List.prefix_replicate_iff.mp below).2, walk_name leads.dir] at walked
    split at walked
    · cases walked
    · rw [dir] at walked
      rw [← Except.ok.inj ((walk_dots _ dir).symm.trans walked)]
      exact dir

/-- So is a path with names behind it that lead down to a directory. -/
theorem Leads.paved_names (leads : Leads top root place) {names : List String}
    (valid : ∀ n ∈ names, Path.IsName n) (dir : top.kindAt (place ++ names) = some .dir) :
    Paved top (Path.joinNames root names) := by
  refine leads.paved (Path.parts_joinNames leads.relative.1 valid) ?_
  intro more reached left leading _ walked
  obtain ⟨below, rfl, before⟩ : ∃ below, more = below.map Part.name ∧ below <+: names := by
    obtain ⟨rest, whole⟩ := leading
    obtain ⟨below, behind, rfl, rfl, _⟩ := List.map_eq_append_iff.mp whole.symm
    exact ⟨below, rfl, List.prefix_append below behind⟩
  have here : top.kindAt (place ++ below) = some .dir := by
    obtain ⟨rest, rfl⟩ := before
    cases rest with
    | nil => rwa [List.append_nil] at dir
    | cons n rest =>
      rw [← List.append_assoc] at dir
      exact kindAt_above (List.cons_ne_nil n rest) (by rw [dir]; simp)
  obtain ⟨entries, held⟩ := kindAt_dir.mp here
  rw [walk_names below held rfl] at walked
  split at walked
  · cases walked
  · rw [← Except.ok.inj walked]
    exact here

end

/-! ### Making directories -/

section

variable {top whole after : Node} {path : String}

/-- A directory made where the whole tree has one keeps the tree a part of the whole. -/
theorem makeDir_partOf (part : PartOf top whole) (paved : Paved whole path)
    (made : top.makeDir path = .ok after) : PartOf after whole := by
  obtain ⟨_, place, walked, free, rfl⟩ := makeDir_ok made
  have dir : whole.kindAt place = some .dir := by
    rcases paved _ place List.prefix_rfl (walkWithin_within part.within walked) with
      dir | ⟨target, link⟩
    · exact dir
    · have there := part.links _ _ link
      rw [kindAt_none.mpr free] at there
      cases there
  have noFile : whole.contentAt place = none := by
    obtain ⟨entries, held⟩ := kindAt_dir.mp dir
    rw [contentAt, held]
    rfl
  refine part.put (site_of_walked walked) ?_ (fun _ _ => rfl) dir noFile (by simp [Node.empty, kind])
  rw [kindAt_none.mpr free]
  simp

/-- What is left when directories are made in a part of a tree is a part of it as well, if the way to
them is paved there. -/
theorem makeDirsWithin_partOf (limit : Nat) (part : PartOf top whole) (paved : Paved whole path) :
    PartOf (makeDirsWithin limit top path).1 whole := by
  induction limit generalizing top path with
  | zero => exact part
  | succ limit ih =>
    unfold makeDirsWithin
    split
    · exact part
    · split
      next made done => exact makeDir_partOf part paved done
      next missing =>
        have parents := ih part paved.parent
        split
        next result => rw [result] at parents; exact parents
        next between result =>
          rw [result] at parents
          split
          next made done => exact makeDir_partOf parents paved done
          next => exact parents
      next => exact part

/-- Making the directories along a path adds to a tree only what the whole has there. -/
theorem makeDirs_partOf (part : PartOf top whole) (paved : Paved whole path) :
    PartOf (top.makeDirs path).1 whole := by
  unfold makeDirs
  dsimp only
  split
  · exact part
  · exact makeDirsWithin_partOf _ part paved

/-- The path of a directory that was made leads to it. -/
theorem makeDir_leads (made : top.makeDir path = .ok after) : ∃ place, Leads after path place := by
  obtain ⟨opened, place, walked, free, rfl⟩ := makeDir_ok made
  have site := site_of_walked walked
  have dir : (top.put place .empty).kindAt place = some .dir := by
    rw [kindAt, site.get?_put]
    rfl
  have within := (Extended.put site free).grows.kinds
  have again := walkWithin_follow (walkWithin_within within walked) (by simp [dir])
  exact ⟨place, leads_of_walked opened again dir⟩

theorem leads_of_pathIsDir (isDir : top.pathIsDir path = true) : ∃ place, Leads top path place := by
  unfold pathIsDir at isDir
  split at isDir
  next place node found =>
    obtain ⟨located, held⟩ := find_ok found
    cases node with
    | dir entries => exact ⟨place, located, kindAt_dir.mpr ⟨entries, held⟩⟩
    | file content => cases isDir
    | link target => cases isDir
  · cases isDir

/-- A path along which directories were made leads to one. -/
theorem makeDirs_leads (written : path ≠ "") (done : top.makeDirs path = (after, .ok ())) :
    ∃ place, Leads after path place := by
  have orDir : ∀ {t t' : Node} {e : OsError},
      (t, if t.pathIsDir path then .ok () else Except.error e) = (t', Except.ok ()) →
        ∃ place, Leads t' path place := by
    intro t t' e same
    obtain ⟨rfl, ok⟩ := Prod.mk.inj same
    split at ok
    next isDir => exact leads_of_pathIsDir isDir
    · cases ok
  unfold makeDirs at done
  dsimp only at done
  split at done
  · cases done
  · unfold makeDirsWithin at done
    rw [if_neg (by simpa using written)] at done
    split at done
    next made ok =>
      cases done
      exact makeDir_leads ok
    · split at done
      · cases done
      · split at done
        next made ok =>
          cases done
          exact makeDir_leads ok
        · exact orDir done
    · exact orDir done

end

end AutoDoc.Node
