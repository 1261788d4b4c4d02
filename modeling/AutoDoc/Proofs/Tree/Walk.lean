import AutoDoc.Proofs.Tree.Proper

/-!
# Walks along paths

A walk only asks for the kinds of nodes, and `walk_cons` says all that one step of it can do. From
this follow:

* `locate_mono` — a path that leads to a node leads there in every tree that holds more;
* `walkWithin_append` — a walk goes on where a walk along the first parts ended;
* `walk_names` — names alone lead straight down;
* `walkWithin_site` — where a walk ends, a node can be put;
* `Leads.locate_names` — names joined to the path of a directory lead to what stands below it;
* `Leads.eq_of_locate_entry` — a folder joined to it leads to the entry that the folder names.
-/

namespace AutoDoc.Node

open AutoDoc.Path (Part)

/-! ### Kinds on the way -/

theorem kindAt_dir {top : Node} {place : List String} :
    top.kindAt place = some .dir ↔ ∃ entries, top.get? place = some (.dir entries) := by
  unfold kindAt
  rcases top.get? place with _ | (_ | _ | _) <;> simp [kind]

theorem kindAt_link {top : Node} {place : List String} {target : String} :
    top.kindAt place = some (.link target) ↔ top.get? place = some (.link target) := by
  unfold kindAt
  rcases top.get? place with _ | (_ | _ | _) <;> simp [kind]

theorem kindAt_none {top : Node} {place : List String} :
    top.kindAt place = none ↔ top.get? place = none := by
  simp [kindAt]

/-- What stands above a node is a directory. -/
theorem kindAt_above {top : Node} {place below : List String} (some : below ≠ [])
    (held : top.kindAt (place ++ below) ≠ none) : top.kindAt place = .some .dir := by
  obtain ⟨n, rest, rfl⟩ := List.exists_cons_of_ne_nil some
  obtain ⟨node, found⟩ := Option.ne_none_iff_exists'.mp (mt kindAt_none.mpr held)
  rw [get?_append] at found
  obtain ⟨above, here, under⟩ := Option.bind_eq_some_iff.mp found
  obtain ⟨entries, _, rfl, _⟩ := get?_cons_eq_some under
  exact kindAt_dir.mpr ⟨entries, here⟩

/-! ### One step -/

section

variable {top : Node} {followLast : Bool}
  {onLink : List String → List Part → Except OsError (List String)} {place : List String}
  {rest : List Part}

theorem walk_current (here : top.kindAt place = some .dir) :
    walk top followLast onLink place (.current :: rest) =
      walk top followLast onLink place rest := by
  obtain ⟨entries, held⟩ := kindAt_dir.mp here
  rw [walk, held]

theorem walk_parent (here : top.kindAt place = some .dir) :
    walk top followLast onLink place (.parent :: rest) =
      if place.isEmpty then .error .notFound
      else walk top followLast onLink place.dropLast rest := by
  obtain ⟨entries, held⟩ := kindAt_dir.mp here
  rw [walk, held]

/-- One step of a walk, by what stands under the name. -/
theorem walk_name (here : top.kindAt place = some .dir) (n : String) :
    walk top followLast onLink place (.name n :: rest) =
      if Path.nameTooLong n then .error .nameTooLong
      else match top.kindAt (place ++ [n]) with
        | none => if rest.isEmpty then .ok (place ++ [n]) else .error .notFound
        | some (.link target) =>
          if rest.isEmpty && !followLast then .ok (place ++ [n])
          else if (Path.parse target).absolute then .error .notFound
          else onLink place (targetParts (Path.parse target) ++ rest)
        | some _ => walk top followLast onLink (place ++ [n]) rest := by
  obtain ⟨entries, held⟩ := kindAt_dir.mp here
  rw [walk, held, kindAt_child held]
  dsimp only
  congr 1
  rcases entries.lookup n with _ | (_ | _ | _) <;> rfl

theorem walk_of_not_dir {part : Part} (other : top.kindAt place ≠ some .dir)
    (reached : List String) :
    walk top followLast onLink place (part :: rest) ≠ .ok reached := by
  unfold walk
  split
  next entries held => exact absurd (kindAt_dir.mpr ⟨entries, held⟩) other
  all_goals simp

end

section

variable (top : Node) (followLast : Bool)
  (onLink : List String → List Part → Except OsError (List String)) (place : List String)
  (rest : List Part) (reached : List String)

/-- What a walk that ends well does with its first part. -/
inductive WalkStep : Part → Prop
  | current (further : walk top followLast onLink place rest = .ok reached) : WalkStep .current
  | parent (inside : ¬ place.isEmpty = true)
      (further : walk top followLast onLink place.dropLast rest = .ok reached) : WalkStep .parent
  | missing {n : String} (short : ¬ Path.nameTooLong n = true)
      (free : top.kindAt (place ++ [n]) = none) (last : rest.isEmpty = true)
      (ended : reached = place ++ [n]) : WalkStep (.name n)
  | unfollowed {n target : String} (short : ¬ Path.nameTooLong n = true)
      (found : top.kindAt (place ++ [n]) = some (.link target))
      (last : (rest.isEmpty && !followLast) = true) (ended : reached = place ++ [n]) :
      WalkStep (.name n)
  | followed {n target : String} (short : ¬ Path.nameTooLong n = true)
      (found : top.kindAt (place ++ [n]) = some (.link target))
      (more : ¬ (rest.isEmpty && !followLast) = true)
      (relative : ¬ (Path.parse target).absolute = true)
      (further : onLink place (targetParts (Path.parse target) ++ rest) = .ok reached) :
      WalkStep (.name n)
  | entered {n : String} {k : Kind} (short : ¬ Path.nameTooLong n = true)
      (found : top.kindAt (place ++ [n]) = some k) (plain : ∀ target, k ≠ .link target)
      (further : walk top followLast onLink (place ++ [n]) rest = .ok reached) :
      WalkStep (.name n)

variable {top followLast onLink place rest reached}

/-- Behind a first part a walk ends well just if it is in a directory and the step does. -/
theorem walk_cons {part : Part} :
    walk top followLast onLink place (part :: rest) = .ok reached ↔
      top.kindAt place = some .dir ∧ WalkStep top followLast onLink place rest reached part := by
  constructor
  · intro walked
    have here : top.kindAt place = some .dir := by
      by_contra other
      exact walk_of_not_dir other reached walked
    refine ⟨here, ?_⟩
    cases part with
    | current =>
      rw [walk_current here] at walked
      exact .current walked
    | parent =>
      rw [walk_parent here] at walked
      split at walked
      · cases walked
      next inside => exact .parent inside walked
    | name n =>
      rw [walk_name here] at walked
      split at walked
      · cases walked
      next short =>
        split at walked
        next free =>
          split at walked
          next last => exact .missing short free last (Except.ok.inj walked).symm
          · cases walked
        next target found =>
          split at walked
          next last => exact .unfollowed short found last (Except.ok.inj walked).symm
          next more =>
            split at walked
            · cases walked
            next relative => exact .followed short found more relative walked
        next k plain found => exact .entered short found plain walked
  · rintro ⟨here, step⟩
    cases step with
    | current further => rwa [walk_current here]
    | parent inside further => rwa [walk_parent here, if_neg inside]
    | missing short free last ended =>
      rw [walk_name here, if_neg short, free, if_pos last, ended]
    | unfollowed short found last ended =>
      rw [walk_name here, if_neg short, found, ended]
      exact if_pos last
    | followed short found more relative further =>
      rw [walk_name here, if_neg short, found, ← further]
      exact (if_neg more).trans (if_neg relative)
    | @entered n k short found plain further =>
      rw [walk_name here, if_neg short, found]
      cases k with
      | link target => exact absurd rfl (plain target)
      | file => exact further
      | dir => exact further

end

/-! ### Larger trees -/

/-- All that stands in one tree stands in the other, and is of the same kind. -/
def Within (top larger : Node) : Prop :=
  ∀ names k, top.kindAt names = some k → larger.kindAt names = some k

/-- A walk that reaches something reaches it in every larger tree. -/
theorem walk_mono {top larger : Node} (within : Within top larger) {followLast : Bool}
    {onLink onLink' : List String → List Part → Except OsError (List String)}
    (onward : ∀ place parts reached, onLink place parts = .ok reached →
      top.kindAt reached ≠ none → onLink' place parts = .ok reached)
    {parts : List Part} {place reached : List String}
    (walked : walk top followLast onLink place parts = .ok reached)
    (held : top.kindAt reached ≠ none) :
    walk larger followLast onLink' place parts = .ok reached := by
  induction parts generalizing place with
  | nil => exact walked
  | cons part rest ih =>
    obtain ⟨here, step⟩ := walk_cons.mp walked
    refine walk_cons.mpr ⟨within _ _ here, ?_⟩
    cases step with
    | current further => exact .current (ih further)
    | parent inside further => exact .parent inside (ih further)
    | missing short free last ended => exact absurd (ended ▸ free) held
    | unfollowed short found last ended => exact .unfollowed short (within _ _ found) last ended
    | followed short found more relative further =>
      exact .followed short (within _ _ found) more relative (onward _ _ _ further held)
    | entered short found plain further =>
      exact .entered short (within _ _ found) plain (ih further)

/-- So does a walk that follows links. -/
theorem walkWithin_mono {top larger : Node} (within : Within top larger) {followLast : Bool}
    {links : Nat} {parts : List Part} {place reached : List String}
    (walked : walkWithin top followLast links place parts = .ok reached)
    (held : top.kindAt reached ≠ none) :
    walkWithin larger followLast links place parts = .ok reached := by
  induction links generalizing place parts reached with
  | zero => cases walked
  | succ links ih => exact walk_mono within (fun _ _ _ further => ih further) walked held

/-- A path that leads to a node leads there in a larger tree. -/
theorem locate_mono {top larger : Node} (within : Within top larger) {followLast : Bool}
    {path : String} {place : List String} (located : top.locate followLast path = .ok place)
    (held : top.kindAt place ≠ none) : larger.locate followLast path = .ok place := by
  obtain ⟨opened, walked⟩ := locate_walked located
  have again := walkWithin_mono within walked held
  simp only [locate, opened, walked, again, bind, Except.bind, pure, Except.pure] at located ⊢
  cases slash : (Path.parse path).slashAtEnd with
  | false => rfl
  | true =>
    -- A slash asks for a directory, in either tree.
    rw [slash] at located
    rcases found : top.get? place with _ | (_ | _ | entries)
    · exact absurd (kindAt_none.mpr found) held
    · rw [found] at located
      cases located
    · rw [found] at located
      cases located
    · obtain ⟨_, there⟩ := kindAt_dir.mp (within _ _ (kindAt_dir.mpr ⟨entries, found⟩))
      rw [there]

/-! ### Going on -/

/-- Behind parts that lead to a directory a walk goes on from there, with some of its links left. -/
theorem walkWithin_append {top : Node} {links : Nat} {parts : List Part}
    {place reached : List String} (walked : walkWithin top true links place parts = .ok reached)
    (here : top.kindAt reached = some .dir) (followLast : Bool) {more : List Part}
    (some : more ≠ []) :
    ∃ left, walkWithin top followLast links place (parts ++ more) =
      walk top followLast (walkWithin top followLast left) reached more := by
  induction links generalizing place parts with
  | zero => cases walked
  | succ links ih =>
    simp only [walkWithin] at walked ⊢
    -- The links are followed by the induction on their number, the parts by one of their own.
    induction parts generalizing place with
    | nil =>
      cases walked
      exact ⟨links, rfl⟩
    | cons part rest onward =>
      obtain ⟨dir, step⟩ := walk_cons.mp walked
      rw [List.cons_append]
      cases step with
      | current further =>
        rw [walk_current dir]
        exact onward further
      | parent inside further =>
        rw [walk_parent dir, if_neg inside]
        exact onward further
      | missing short free last ended =>
        rw [← ended, here] at free
        cases free
      | unfollowed short found last ended => simp at last
      | followed short found _ relative further =>
        have behind : ¬ ((rest ++ more).isEmpty && !followLast) = true := by simp [some]
        obtain ⟨left, same⟩ := ih further
        refine ⟨left, ?_⟩
        rw [walk_name dir, if_neg short, found, ← same, List.append_assoc]
        exact (if_neg behind).trans (if_neg relative)
      | @entered n k short found plain further =>
        rw [walk_name dir, if_neg short, found]
        cases k with
        | link target => exact absurd rfl (plain target)
        | file => exact onward further
        | dir => exact onward further

/-- Parts behind which a walk goes on lead to a directory. -/
theorem dir_of_walkWithin_append {top : Node} {followLast : Bool} {links : Nat}
    {parts more : List Part} {place above reached : List String}
    (walked : walkWithin top true links place parts = .ok above)
    (onward : walkWithin top followLast links place (parts ++ more) = .ok reached)
    (behind : more ≠ []) : top.kindAt above = some .dir := by
  induction links generalizing place parts with
  | zero => cases walked
  | succ links ih =>
    simp only [walkWithin] at walked onward
    induction parts generalizing place with
    | nil =>
      cases walked
      obtain ⟨part, rest, rfl⟩ := List.exists_cons_of_ne_nil behind
      exact (walk_cons.mp onward).1
    | cons part rest below =>
      rw [List.cons_append] at onward
      obtain ⟨_, first⟩ := walk_cons.mp walked
      obtain ⟨_, second⟩ := walk_cons.mp onward
      have goesOn : (rest ++ more).isEmpty = false := by simp [behind]
      -- Both walks take the same first step, since they see the same tree.
      cases first with
      | current further =>
        cases second with
        | current further' => exact below further further'
      | parent _ further =>
        cases second with
        | parent _ further' => exact below further further'
      | missing _ free _ _ =>
        cases second with
        | missing _ _ last _ => simp [goesOn] at last
        | unfollowed _ found _ _ => simp [free] at found
        | followed _ found _ _ _ => simp [free] at found
        | entered _ found _ _ => simp [free] at found
      | unfollowed _ _ last _ => simp at last
      | followed _ found _ _ further =>
        cases second with
        | missing _ free _ _ => simp [free] at found
        | unfollowed _ _ last _ => simp [goesOn] at last
        | followed _ found' _ _ further' =>
          cases found.symm.trans found'
          rw [← List.append_assoc] at further'
          exact ih further further'
        | entered _ found' plain _ =>
          cases found.symm.trans found'
          exact absurd rfl (plain _)
      | entered _ found plain further =>
        cases second with
        | missing _ free _ _ => simp [free] at found
        | unfollowed _ _ last _ => simp [goesOn] at last
        | followed _ found' _ _ _ =>
          cases found.symm.trans found'
          exact absurd rfl (plain _)
        | entered _ _ _ further' => exact below further further'

/-- Names lead straight down to what stands behind them. -/
theorem walk_names {top node : Node} {followLast : Bool}
    {onLink : List String → List Part → Except OsError (List String)} {place : List String}
    (names : List String) (held : top.get? (place ++ names) = some node)
    (plain : node.isLink = false) :
    walk top followLast onLink place (names.map .name) =
      if names.any Path.nameTooLong then .error .nameTooLong else .ok (place ++ names) := by
  induction names generalizing place with
  | nil => simp [walk]
  | cons n rest ih =>
    have here : top.kindAt place = some .dir :=
      kindAt_above (List.cons_ne_nil n rest) (by simp [kindAt, held])
    rw [List.append_cons place n rest] at held ⊢
    rw [List.map_cons, walk_name here, List.any_cons]
    cases long : Path.nameTooLong n with
    | true => rfl
    | false =>
      have onward := ih held
      have next : ∃ k, top.kindAt (place ++ [n]) = some k ∧ ∀ target, k ≠ .link target := by
        cases rest with
        | nil =>
          rw [List.append_nil] at held
          refine ⟨node.kind, by simp [kindAt, held], ?_⟩
          intro target link
          cases node <;> simp_all [kind, isLink]
        | cons m more =>
          have under : top.kindAt (place ++ [n] ++ m :: more) ≠ none := by
            rw [kindAt, held]
            exact Option.some_ne_none _
          exact ⟨.dir, kindAt_above (List.cons_ne_nil m more) under, by simp⟩
      obtain ⟨k, found, noLink⟩ := next
      rw [if_neg Bool.false_ne_true, found, Bool.false_or]
      cases k with
      | link target => exact absurd rfl (noLink target)
      | file => exact onward
      | dir => exact onward

/-! ### Where a node can be put -/

/-- A place at which a node can be put: it has names, and a directory is there to hold it. -/
structure Site (top : Node) (place : List String) : Prop where
  names : ∀ n ∈ place, Path.IsName n
  parent : ∀ before n, place = before ++ [n] → top.kindAt before = some .dir

theorem Site.root (top : Node) : Site top [] :=
  ⟨fun _ absent => absurd absent List.not_mem_nil, fun before n same => by simp at same⟩

theorem Site.child {top : Node} {place : List String} (site : Site top place)
    (here : top.kindAt place = some .dir) {n : String} (name : Path.IsName n) :
    Site top (place ++ [n]) := by
  refine ⟨?_, ?_⟩
  · intro m member
    rcases List.mem_append.mp member with above | last
    · exact site.names m above
    · exact List.mem_singleton.mp last ▸ name
  · intro before m same
    rw [← (List.append_inj' same rfl).1]
    exact here

theorem Site.dropLast {top : Node} {place : List String} (site : Site top place)
    (here : top.kindAt place = some .dir) : Site top place.dropLast := by
  refine ⟨fun n member => site.names n (List.dropLast_subset _ member), ?_⟩
  intro before n same
  have shorter : before ++ [n] <+: place := same ▸ List.dropLast_prefix place
  obtain ⟨rest, whole⟩ := shorter
  refine kindAt_above (List.cons_ne_nil n rest) ?_
  rw [List.append_cons, whole, here]
  exact Option.some_ne_none _

/-- A walk that ends well ends where a node can be put. -/
theorem walk_site {top : Node} {followLast : Bool}
    {onLink : List String → List Part → Except OsError (List String)}
    (onward : ∀ place parts reached, Site top place → (∀ n, Part.name n ∈ parts → Path.IsName n) →
      onLink place parts = .ok reached → Site top reached)
    {parts : List Part} {place reached : List String} (site : Site top place)
    (names : ∀ n, Part.name n ∈ parts → Path.IsName n)
    (walked : walk top followLast onLink place parts = .ok reached) : Site top reached := by
  induction parts generalizing place with
  | nil =>
    cases walked
    exact site
  | cons part rest ih =>
    have later : ∀ n, Part.name n ∈ rest → Path.IsName n := fun n member =>
      names n (List.mem_cons_of_mem _ member)
    obtain ⟨here, step⟩ := walk_cons.mp walked
    have child : ∀ n, part = .name n → Site top (place ++ [n]) := by
      rintro n rfl
      exact site.child here (names n List.mem_cons_self)
    cases step with
    | current further => exact ih site later further
    | parent _ further => exact ih (site.dropLast here) later further
    | missing _ _ _ ended => exact ended ▸ child _ rfl
    | unfollowed _ _ _ ended => exact ended ▸ child _ rfl
    | followed _ _ _ _ further =>
      refine onward _ _ _ site ?_ further
      intro m member
      rcases List.mem_append.mp member with inTarget | behind
      · rcases List.mem_append.mp inTarget with part | last
        · exact Path.isName_of_mem_parts part
        · split at last <;> simp at last
      · exact later m behind
    | entered _ _ _ further => exact ih (child _ rfl) later further

/-- Where a walk along a path ends, a node can be put. -/
theorem walkWithin_site {top : Node} {followLast : Bool} {links : Nat} {parts : List Part}
    {place reached : List String} (site : Site top place)
    (names : ∀ n, Part.name n ∈ parts → Path.IsName n)
    (walked : walkWithin top followLast links place parts = .ok reached) : Site top reached := by
  induction links generalizing place parts reached with
  | zero => cases walked
  | succ links ih =>
    exact walk_site (fun _ _ _ site names further => ih site names further) site names walked

theorem site_of_walked {top : Node} {followLast : Bool} {links : Nat} {path : String}
    {place : List String}
    (walked : walkWithin top followLast links [] (Path.parse path).parts = .ok place) :
    Site top place :=
  walkWithin_site (Site.root top) (fun _ member => Path.isName_of_mem_parts member) walked

theorem locate_site {top : Node} {followLast : Bool} {path : String} {place : List String}
    (located : top.locate followLast path = .ok place) : Site top place := by
  obtain ⟨follow, walked⟩ := locate_ok located
  exact site_of_walked walked

/-! ### Below a directory -/

structure Leads (top : Node) (root : String) (place : List String) : Prop where
  located : top.locate true root = .ok place
  dir : top.kindAt place = some .dir

theorem relative_of_openPath {path : String} {parsed : Path.Parsed}
    (opened : openPath path = .ok parsed) : path ≠ "" ∧ (Path.parse path).absolute = false := by
  unfold openPath at opened
  dsimp only at opened
  split at opened
  · cases opened
  · split at opened
    · cases opened
    · split at opened
      · cases opened
      next relative => simpa using relative

theorem leads_of_walked {top : Node} {path : String} {parsed : Path.Parsed} {place : List String}
    (opened : openPath path = .ok parsed)
    (walked : walkWithin top true 41 [] (Path.parse path).parts = .ok place)
    (dir : top.kindAt place = some .dir) : Leads top path place := by
  obtain ⟨entries, held⟩ := kindAt_dir.mp dir
  refine ⟨?_, dir⟩
  simp only [locate, opened, openPath_ok opened, bind, Except.bind, Bool.true_or, walked, held]
  cases (Path.parse path).slashAtEnd <;> rfl

/-- A relative path that cannot be passed on is not taken for one that leads nowhere. -/
theorem openPath_refused {path : String} (written : path ≠ "")
    (relative : (Path.parse path).absolute = false) {e : OsError}
    (refused : openPath path = .error e) : e ≠ .notFound := by
  unfold openPath at refused
  simp only [relative, show path.isEmpty = false by simpa using written] at refused
  split at refused
  · cases refused
    simp
  · split at refused
    · cases refused
      simp
    · cases refused

section

variable {top : Node} {root : String} {place : List String}

theorem Leads.relative (leads : Leads top root place) :
    root ≠ "" ∧ (Path.parse root).absolute = false := by
  exact relative_of_openPath (locate_walked leads.located).1

theorem Leads.mono {larger : Node} (leads : Leads top root place) (within : Within top larger) :
    Leads larger root place :=
  ⟨locate_mono within leads.located (by simp [leads.dir]), within _ _ leads.dir⟩

theorem Leads.walked (leads : Leads top root place) :
    walkWithin top true 41 [] (Path.parse root).parts = .ok place := by
  simpa using (locate_walked leads.located).2

/-- A directory that a path leads to is found there. -/
theorem Leads.find (leads : Leads top root place) :
    ∃ entries, top.find root = .ok (place, .dir entries) := by
  obtain ⟨entries, held⟩ := kindAt_dir.mp leads.dir
  refine ⟨entries, ?_⟩
  simp only [Node.find, leads.located, held, bind, Except.bind, pure, Except.pure]

/-- A path with a name behind it leads to a directory. -/
theorem leads_of_find_child {n : String} (name : Path.IsName n) {node held : Node}
    {target : List String} (found : top.find root = .ok (place, node))
    (child : top.find (Path.join root n) = .ok (target, held)) : Leads top root place := by
  obtain ⟨located, _⟩ := find_ok found
  obtain ⟨opened, walked⟩ := locate_walked located
  obtain ⟨_, onward⟩ := locate_walked (find_ok child).1
  rw [Path.parts_join (relative_of_openPath opened).1 name] at onward
  exact ⟨located, dir_of_walkWithin_append (by simpa using walked) onward (by simp)⟩

/-- A path with names behind that of a directory is walked from the directory on. -/
theorem Leads.walk (leads : Leads top root place) {names : List String} (below : names ≠ [])
    (valid : ∀ n ∈ names, Path.IsName n) (followLast : Bool) :
    ∃ left, walkWithin top followLast 41 [] (Path.parse (Path.joinNames root names)).parts =
      Node.walk top followLast (walkWithin top followLast left) place (names.map .name) := by
  rw [Path.parts_joinNames leads.relative.1 valid]
  exact walkWithin_append leads.walked leads.dir followLast (by simpa using below)

/-- Where names behind the path of a directory lead to, only depends on what they lead to. -/
theorem Leads.locate_names (leads : Leads top root place) {names : List String} {node : Node}
    (below : names ≠ []) (valid : ∀ n ∈ names, Path.IsName n)
    (held : top.get? (place ++ names) = some node) (plain : node.isLink = false) :
    top.locate true (Path.joinNames root names) =
      (openPath (Path.joinNames root names)).bind fun _ =>
        if names.any Path.nameTooLong then .error .nameTooLong else .ok (place ++ names) := by
  obtain ⟨left, walked⟩ := leads.walk below valid true
  unfold locate
  cases opened : openPath (Path.joinNames root names) with
  | error e => rfl
  | ok parsed =>
    have noSlash := Path.slashAtEnd_joinNames leads.relative.1 below valid
    rw [openPath_ok opened]
    simp only [bind, Except.bind, Bool.true_or, walked, walk_names names held plain, noSlash]
    cases names.any Path.nameTooLong <;> rfl

theorem spell_names (place names : List String) :
    Path.spell place (names.map .name) = place ++ names := by
  induction names generalizing place with
  | nil => simp [Path.spell]
  | cons n rest ih =>
    rw [List.map_cons, Path.spell, ih]
    simp

/-- Names below a directory lead nowhere else, unless there are links on the way. -/
theorem Leads.eq_of_locate (leads : Leads top root place) {names reached : List String}
    {followLast : Bool} (below : names ≠ []) (valid : ∀ n ∈ names, Path.IsName n)
    (free : ∀ above, above <+: names → ∀ target, top.kindAt (place ++ above) ≠ some (.link target))
    (located : top.locate followLast (Path.joinNames root names) = .ok reached) :
    reached = place ++ names := by
  obtain ⟨follow, walked⟩ := locate_ok located
  obtain ⟨left, onward⟩ := leads.walk below valid follow
  rw [onward] at walked
  rw [← spell_names]
  refine walk_of_linkFree _ ?_ walked
  intro parts leading target
  rw [List.prefix_iff_eq_take, ← List.map_take] at leading
  rw [leading, spell_names]
  exact free _ (List.take_prefix _ _) target

/-- So the path of what stands below a directory leads there, unless that is a link. -/
theorem Leads.eq_of_locate_standing (leads : Leads top root place) {names reached : List String}
    {k : Kind} (valid : ∀ n ∈ names, Path.IsName n) (stands : top.kindAt (place ++ names) = some k)
    (plain : ∀ target, k ≠ .link target)
    (located : top.locate true (Path.joinNames root names) = .ok reached) :
    reached = place ++ names := by
  rcases names.eq_nil_or_concat' with rfl | ⟨before, m, rfl⟩
  · rw [List.append_nil]
    exact Except.ok.inj (located.symm.trans leads.located)
  · refine leads.eq_of_locate (by simp) valid ?_ located
    rintro above leading target link
    rcases List.prefix_concat_iff.mp leading with rfl | ⟨rest, rfl⟩
    · exact plain target (Option.some.inj (stands.symm.trans link))
    · have dir : top.kindAt (place ++ above) = some .dir := by
        refine kindAt_above (List.append_ne_nil_of_right_ne_nil rest (List.cons_ne_nil m [])) ?_
        rw [← List.append_assoc, List.append_assoc place, List.append_assoc place, stands]
        exact Option.some_ne_none _
      rw [dir] at link
      cases link

end

/-! ### Entries of a directory -/

/-- A folder names an entry of a directory: it is one name, and where slashes or dots behind it ask
for what it leads to, no link stands there. -/
structure Names (top : Node) (place : List String) (folder n : String) : Prop where
  relative : (Path.parse folder).absolute = false
  single : Path.components folder = [.name n]
  plain : folder = n ∨ ∀ target, top.kindAt (place ++ [n]) ≠ some (.link target)

theorem Names.of_name {n : String} (name : Path.IsName n) (top : Node) (place : List String) :
    Names top place n n :=
  ⟨Path.absolute_name name, Path.components_name name, Or.inl rfl⟩

section

variable {top : Node} {root folder n : String} {place : List String}

theorem Names.isName (names : Names top place folder n) : Path.IsName n := by
  obtain ⟨dots, parts⟩ := Path.parts_of_components names.relative names.single
  exact Path.isName_of_mem_parts (parts ▸ List.mem_cons_self)

/-- Behind a link there are neither slashes nor dots. -/
theorem Names.bare (names : Names top place folder n) {target : String}
    (link : top.kindAt (place ++ [n]) = some (.link target)) : folder = n :=
  names.plain.resolve_right fun plain => plain target link

theorem walk_dots {followLast : Bool}
    {onLink : List String → List Part → Except OsError (List String)} (dots : Nat)
    (here : top.kindAt place = some .dir) :
    walk top followLast onLink place (List.replicate dots .current) = .ok place := by
  induction dots with
  | zero => rfl
  | succ dots ih => rw [List.replicate_succ, walk_current here, ih]

/-- An entry is looked up in the directory that the root leads to. -/
theorem Leads.walk_entry (leads : Leads top root place) (names : Names top place folder n)
    (followLast : Bool) : ∃ left dots, (Path.parse folder).parts = .name n :: .replicate dots .current ∧
      walkWithin top followLast 41 [] (Path.parse (Path.join root folder)).parts =
        Node.walk top followLast (walkWithin top followLast left) place
          (.name n :: .replicate dots .current) := by
  obtain ⟨dots, parts⟩ := Path.parts_of_components names.relative names.single
  obtain ⟨left, onward⟩ := walkWithin_append leads.walked leads.dir followLast
    (List.cons_ne_nil (Part.name n) (List.replicate dots .current))
  rw [← parts, ← Path.parts_join_relative leads.relative.1 names.relative] at onward
  exact ⟨left, dots, parts, parts ▸ onward⟩

/-- The path of a folder leads to the entry that it names; a link may stand there if it is not to be
followed. -/
theorem Leads.eq_of_locate_entry (leads : Leads top root place) (names : Names top place folder n)
    {followLast : Bool}
    (plain : followLast = false ∨ ∀ target, top.kindAt (place ++ [n]) ≠ some (.link target))
    {reached : List String}
    (located : top.locate followLast (Path.join root folder) = .ok reached) :
    reached = place ++ [n] := by
  have walked := (locate_walked located).2
  obtain ⟨left, dots, parts, onward⟩ := leads.walk_entry names
    (followLast || (Path.parse (Path.join root folder)).slashAtEnd)
  rw [onward] at walked
  obtain ⟨_, step⟩ := walk_cons.mp walked
  cases step with
  | missing _ _ _ ended => exact ended
  | unfollowed _ _ _ ended => exact ended
  | followed _ found more =>
    obtain rfl := plain.resolve_right fun plain => plain _ found
    have slash := Path.slashAtEnd_join leads.relative.1 names.isName
    rw [names.bare found, Path.parts_name names.isName] at parts
    rw [names.bare found, slash, ← (List.cons.inj parts).2] at more
    simp at more
  | @entered _ k _ found _ further =>
    cases dots with
    | zero => exact (Except.ok.inj further).symm
    | succ dots =>
      have dir := (walk_cons.mp further).1
      exact (Except.ok.inj ((walk_dots (dots + 1) dir).symm.trans further)).symm

end

end AutoDoc.Node
