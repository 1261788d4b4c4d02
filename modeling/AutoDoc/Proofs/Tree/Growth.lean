import AutoDoc.Proofs.Tree.Walk

/-!
# Trees that grow

Putting a node changes the tree at that place and below it (`put_alike`), and so does removing one
(`erase_alike`). Where nothing was, a tree grows: making directories leaves every kind and every file
as they were (`makeDirs_extended`), writing a file changes that file only (`writeBytes_written`).
-/

namespace AutoDoc.Node

/-- Two trees look alike at a list of names. -/
def Alike (names : List String) (before after : Node) : Prop :=
  after.kindAt names = before.kindAt names ∧ after.contentAt names = before.contentAt names

theorem Alike.refl (names : List String) (top : Node) : Alike names top top := ⟨rfl, rfl⟩

theorem Alike.trans {names : List String} {a b c : Node} (first : Alike names a b)
    (second : Alike names b c) : Alike names a c :=
  ⟨second.1.trans first.1, second.2.trans first.2⟩

theorem Alike.symm {names : List String} {a b : Node} (alike : Alike names a b) :
    Alike names b a := ⟨alike.1.symm, alike.2.symm⟩

theorem contentAt_eq_some {top : Node} {place : List String} {content : ByteArray} :
    top.contentAt place = some content ↔ top.get? place = some (.file content) := by
  unfold contentAt
  rcases top.get? place with _ | (_ | _ | _) <;> simp [content?]

theorem kindAt_file {top : Node} {place : List String} :
    top.kindAt place = some .file ↔ ∃ content, top.contentAt place = some content := by
  unfold kindAt contentAt
  rcases top.get? place with _ | (_ | _ | _) <;> simp [kind, content?]

/-! ### Putting and removing -/

section

variable {top new : Node} {place : List String}

theorem alike_dir {entries entries' : List (String × Node)} {names : List String}
    (below : ∀ n rest, names = n :: rest →
      (entries'.lookup n).bind (get? rest) = (entries.lookup n).bind (get? rest)) :
    Alike names (.dir entries) (.dir entries') := by
  cases names with
  | nil => exact ⟨rfl, rfl⟩
  | cons n rest =>
    have same := below n rest rfl
    exact ⟨by rw [kindAt, kindAt, get?_cons_dir, get?_cons_dir, same],
      by rw [contentAt, contentAt, get?_cons_dir, get?_cons_dir, same]⟩

theorem alike_child {entries entries' : List (String × Node)} {n : String} {rest : List String}
    {child child' : Node} (found : entries.lookup n = some child)
    (found' : entries'.lookup n = some child') (below : Alike rest child child') :
    Alike (n :: rest) (.dir entries) (.dir entries') := by
  unfold Alike kindAt contentAt at below ⊢
  simpa [found, found'] using below

/-- Putting a node changes nothing elsewhere. -/
theorem put_alike (top new : Node) {place names : List String} (off : ¬ place <+: names) :
    Alike names top (top.put place new) := by
  induction place generalizing top names with
  | nil => exact absurd List.nil_prefix off
  | cons n rest ih =>
    cases top with
    | file content => cases rest <;> exact Alike.refl _ _
    | link target => cases rest <;> exact Alike.refl _ _
    | dir entries =>
      cases found : entries.lookup n with
      | some child =>
        rw [put_cons found]
        cases names with
        | nil => exact ⟨rfl, rfl⟩
        | cons m more =>
          by_cases same : m = n
          · subst same
            have further : ¬ rest <+: more := fun leads =>
              off ((List.prefix_cons_inj m).mpr leads)
            exact alike_child found (by rw [lookup_putEntry, if_pos rfl]) (ih child further)
          · refine alike_dir fun _ _ split => ?_
            cases split
            rw [lookup_putEntry, if_neg same]
      | none =>
        cases rest with
        | nil =>
          refine alike_dir fun m more split => ?_
          rw [lookup_putEntry, if_neg]
          rintro rfl
          exact off (split ▸ by simp)
        | cons m more =>
          unfold Node.put
          rw [found]
          exact Alike.refl _ _

theorem get?_put_child {n : String} (here : top.kindAt place = some .dir) (new : Node) :
    (top.put (place ++ [n]) new).get? (place ++ [n]) = some new := by
  induction place generalizing top with
  | nil =>
    obtain ⟨entries, held⟩ := kindAt_dir.mp here
    obtain rfl : top = .dir entries := by simpa [Node.get?] using held
    rw [List.nil_append, Node.put, get?_cons_dir, lookup_putEntry, if_pos rfl]
    rfl
  | cons m rest ih =>
    obtain ⟨_, held⟩ := kindAt_dir.mp here
    obtain ⟨entries, child, rfl, found, below⟩ := get?_cons_eq_some held
    rw [List.cons_append, put_cons found, get?_cons_dir, lookup_putEntry, if_pos rfl]
    exact ih (kindAt_dir.mpr ⟨_, below⟩)

/-- A node that was put at a place stands there. -/
theorem Site.get?_put (site : Site top place) (new : Node) :
    (top.put place new).get? place = some new := by
  rcases List.eq_nil_or_concat' place with rfl | ⟨before, n, rfl⟩
  · simp [Node.put, Node.get?]
  · exact get?_put_child (site.parent before n rfl) new

theorem Site.get?_put_below (site : Site top place) (new : Node) (names : List String) :
    (top.put place new).get? (place ++ names) = new.get? names := by
  rw [get?_append, site.get?_put]
  rfl

/-- Erasing a node changes nothing elsewhere. -/
theorem erase_alike (top : Node) {place names : List String} (off : ¬ place <+: names) :
    Alike names top (top.erase place) := by
  induction place generalizing top names with
  | nil => exact absurd List.nil_prefix off
  | cons n rest ih =>
    cases top with
    | file content => cases rest <;> exact Alike.refl _ _
    | link target => cases rest <;> exact Alike.refl _ _
    | dir entries =>
      cases rest with
      | nil =>
        refine alike_dir fun m more split => ?_
        rw [lookup_removeEntry, if_neg]
        rintro rfl
        exact off (split ▸ by simp)
      | cons next deeper =>
        unfold Node.erase
        split
        next child found =>
          cases names with
          | nil => exact ⟨rfl, rfl⟩
          | cons m more =>
            by_cases same : m = n
            · subst same
              have further : ¬ next :: deeper <+: more := fun leads =>
                off ((List.prefix_cons_inj m).mpr leads)
              exact alike_child found (by rw [lookup_putEntry, if_pos rfl]) (ih child further)
            · refine alike_dir fun _ _ split => ?_
              cases split
              rw [lookup_putEntry, if_neg same]
        next => exact Alike.refl _ _

/-- Nothing stands at a place below the top that was removed. -/
theorem get?_erase (top : Node) (below : place ≠ []) : (top.erase place).get? place = none := by
  induction place generalizing top with
  | nil => exact absurd rfl below
  | cons n rest ih =>
    cases top with
    | file content => cases rest <;> simp [Node.erase, Node.get?]
    | link target => cases rest <;> simp [Node.erase, Node.get?]
    | dir entries =>
      cases rest with
      | nil => simp [Node.erase, lookup_removeEntry]
      | cons next deeper =>
        unfold Node.erase
        split
        next child found =>
          rw [get?_cons_dir, lookup_putEntry, if_pos rfl]
          exact ih child (List.cons_ne_nil _ _)
        next missing => rw [get?_cons_dir, missing]; rfl

end

/-! ### Growing -/

/-- A tree that grows keeps what it holds, and no links are added. -/
structure Grows (before after : Node) : Prop where
  kinds : Within before after
  links : ∀ names target, after.kindAt names = some (.link target) →
    before.kindAt names = some (.link target)

theorem Grows.refl (top : Node) : Grows top top :=
  ⟨fun _ _ held => held, fun _ _ held => held⟩

theorem Grows.trans {a b c : Node} (first : Grows a b) (second : Grows b c) : Grows a c :=
  ⟨fun names k held => second.kinds names k (first.kinds names k held),
    fun names target held => first.links names target (second.links names target held)⟩

theorem get?_below_none {top : Node} {place : List String} (free : top.get? place = none)
    (names : List String) : top.get? (place ++ names) = none := by
  rw [get?_append, free]
  rfl

/-- A tree grows where a node without links is put in a free place. -/
theorem Grows.put {top new : Node} {place : List String} (site : Site top place)
    (free : top.get? place = none) (plain : ∀ names target, new.get? names ≠ some (.link target)) :
    Grows top (top.put place new) := by
  refine ⟨?_, ?_⟩
  · intro names k held
    have off : ¬ place <+: names := by
      rintro ⟨rest, rfl⟩
      rw [kindAt_none.mpr (get?_below_none free rest)] at held
      cases held
    rw [(put_alike top new off).1]
    exact held
  · intro names target held
    by_cases below : place <+: names
    · obtain ⟨rest, rfl⟩ := below
      rw [kindAt_link, site.get?_put_below] at held
      exact absurd held (plain rest target)
    · rwa [(put_alike top new below).1] at held

/-! ### Making directories -/

/-- Directories were added to a tree, and nothing else changed. -/
structure Extended (before after : Node) : Prop where
  grows : Grows before after
  contents : ∀ names, after.contentAt names = before.contentAt names
  proper : before.Proper → after.Proper

theorem Extended.refl (top : Node) : Extended top top := ⟨Grows.refl top, fun _ => rfl, id⟩

theorem Extended.trans {a b c : Node} (first : Extended a b) (second : Extended b c) :
    Extended a c :=
  ⟨first.grows.trans second.grows,
    fun names => (second.contents names).trans (first.contents names),
    fun proper => second.proper (first.proper proper)⟩

theorem get?_empty (names : List String) :
    Node.empty.get? names = none ∨ Node.empty.get? names = some Node.empty := by
  cases names with
  | nil => exact Or.inr rfl
  | cons n rest => exact Or.inl rfl

theorem Extended.put {top : Node} {place : List String} (site : Site top place)
    (free : top.get? place = none) : Extended top (top.put place .empty) := by
  refine ⟨Grows.put site free ?_, ?_, fun proper => proper.put site.names .empty⟩
  · intro names target held
    rcases get?_empty names with none | some <;> simp_all [Node.empty]
  · intro names
    by_cases below : place <+: names
    · obtain ⟨rest, rfl⟩ := below
      rw [contentAt, contentAt, site.get?_put_below, get?_below_none free]
      rcases get?_empty rest with none | some <;> simp_all [Node.empty, content?]
    · exact (put_alike top _ below).2

/-- A directory is made where a walk along its path ends, without following a last link. -/
theorem makeDir_ok {top after : Node} {path : String} (made : top.makeDir path = .ok after) :
    openPath path = .ok (Path.parse path) ∧ ∃ place,
      walkWithin top false 41 [] (Path.parse path).parts = .ok place ∧ top.get? place = none ∧
        after = top.put place .empty := by
  obtain ⟨parsed, opened, rest⟩ := ok_of_bind made
  obtain ⟨place, walked, put⟩ := ok_of_bind rest
  obtain rfl := openPath_ok opened
  refine ⟨opened, place, walked, ?_⟩
  split at put
  · cases put
  next free => exact ⟨free, (Except.ok.inj put).symm⟩

theorem makeDir_extended {top after : Node} {path : String}
    (made : top.makeDir path = .ok after) : Extended top after := by
  obtain ⟨_, place, walked, free, rfl⟩ := makeDir_ok made
  exact Extended.put (site_of_walked walked) free

/-- Making directories adds directories and changes nothing else, also where it fails. -/
theorem makeDirsWithin_extended (limit : Nat) (top : Node) (path : String) :
    Extended top (makeDirsWithin limit top path).1 := by
  induction limit generalizing top path with
  | zero => exact Extended.refl top
  | succ limit ih =>
    unfold makeDirsWithin
    split
    · exact Extended.refl top
    · split
      next made done => exact makeDir_extended done
      next missing =>
        have parents := ih top (Path.parent path)
        split
        next result => rw [result] at parents; exact parents
        next between result =>
          rw [result] at parents
          split
          next made done => exact parents.trans (makeDir_extended done)
          next => exact parents
      next => exact Extended.refl top

/-- Making directories adds directories only, also where it fails. -/
theorem makeDirs_extended (top : Node) (path : String) : Extended top (top.makeDirs path).1 := by
  unfold makeDirs
  dsimp only
  split
  · exact Extended.refl top
  · exact makeDirsWithin_extended _ top path

/-- Where something else than a missing parent is in the way, nothing is made. -/
theorem makeDirs_refused {top : Node} {path : String} {e : OsError} (written : path ≠ "")
    (relative : (Path.parse path).absolute = false) (noDir : top.pathIsDir path = false)
    (refused : top.makeDir path = .error e) (other : e ≠ .notFound) :
    top.makeDirs path = (top, .error e) := by
  unfold makeDirs
  simp only [relative, Bool.false_eq_true, if_false]
  unfold makeDirsWithin
  rw [if_neg (by simpa using written), refused]
  simp [noDir]

/-! ### Writing a file -/

structure Written (place : List String) (content : ByteArray) (before after : Node) : Prop where
  grows : Grows before after
  elsewhere : ∀ names, names ≠ place → after.contentAt names = before.contentAt names
  here : after.contentAt place = some content
  proper : before.Proper → after.Proper

/-- A file put where one stands, or where nothing stands, has been written. -/
theorem Written.put {top : Node} {place : List String} (site : Site top place)
    (file : top.kindAt place = some .file ∨ top.get? place = none) (content : ByteArray) :
    Written place content top (top.put place (.file content)) := by
  have proper : top.Proper → (top.put place (.file content)).Proper := fun proper =>
    proper.put site.names (.file content)
  have here : (top.put place (.file content)).contentAt place = some content :=
    contentAt_eq_some.mpr (site.get?_put _)
  rcases file with held | free
  · obtain ⟨old, found⟩ := kindAt_file.mp held
    have same := SameBut.put (contentAt_eq_some.mp found) content
    refine ⟨⟨fun names k there => ?_, fun names target there => ?_⟩, same.contents, here, proper⟩
    · rw [same.kinds]
      exact there
    · rwa [same.kinds] at there
  · refine ⟨Grows.put site free ?_, ?_, here, proper⟩
    · intro names target
      cases names <;> simp [Node.get?]
    · intro names other
      by_cases below : place <+: names
      · obtain ⟨rest, rfl⟩ := below
        obtain ⟨n, more, rfl⟩ := List.exists_cons_of_ne_nil (show rest ≠ [] by simpa using other)
        rw [contentAt, contentAt, site.get?_put_below, get?_below_none free]
        rfl
      · exact (put_alike top _ below).2

/-- A file is written where its path leads to, unless something else stands there. -/
theorem writeBytes_ok {top after : Node} {path : String} {content : ByteArray}
    (written : top.writeBytes path content = .ok after) :
    ∃ place, top.locate true path = .ok place ∧
      (top.kindAt place = some .file ∨ top.get? place = none) ∧
      after = top.put place (.file content) := by
  obtain ⟨place, located, put⟩ := ok_of_bind written
  refine ⟨place, located, ?_⟩
  split at put
  next old held =>
    cases put
    exact ⟨Or.inl (kindAt_file.mpr ⟨old, contentAt_eq_some.mpr held⟩), rfl⟩
  · cases put
  next free =>
    split at put
    · cases put
    · cases put
      exact ⟨Or.inr free, rfl⟩

end AutoDoc.Node
