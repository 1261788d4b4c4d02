import AutoDoc.Backup
import AutoDoc.Proofs.Tree.Growth

/-!
# Removing an old backup

A directory is removed by emptying it first. What is below it may hold links that stand on the path
itself, so that afterwards the path can lead nowhere; but it leads to no other directory than before,
since the emptied tree is a part of the old one. So nothing changes but the entry of that name and
what is below it (`removeDirs_cleared`), whether the removal succeeds or not (`removeDirs_outside`).
-/

namespace AutoDoc.Node

/-- A place was cleared: nothing is left there but perhaps an empty directory. -/
structure Cleared (place : List String) (before after : Node) : Prop where
  outside : ∀ names, ¬ place <+: names → Alike names before after
  here : after.get? place = none ∨ after.get? place = some .empty
  proper : before.Proper → after.Proper

/-- No link is left where a directory was cleared. -/
theorem Cleared.not_link {before after : Node} {place : List String}
    (cleared : Cleared place before after) (names : List String) (target : String) :
    after.kindAt (place ++ names) ≠ some (.link target) := by
  intro held
  rw [kindAt_link, get?_append] at held
  rcases cleared.here with none | empty
  · simp [none] at held
  · rw [empty, Option.bind_some] at held
    rcases get?_empty names with none | some <;> simp_all [Node.empty]

theorem Cleared.of_free {top : Node} {place : List String} (free : top.get? place = none) :
    Cleared place top top :=
  ⟨fun _ _ => Alike.refl _ _, Or.inl free, id⟩

theorem Cleared.erase (top : Node) {place : List String} (below : place ≠ []) :
    Cleared place top (top.erase place) :=
  ⟨fun _ off => erase_alike top off, Or.inl (get?_erase top below), fun proper => proper.erase⟩

theorem Cleared.empty {top : Node} {place : List String} (site : Site top place) :
    Cleared place top (top.put place .empty) :=
  ⟨fun _ off => put_alike top .empty off, Or.inr (site.get?_put _),
    fun proper => proper.put site.names .empty⟩

/-- A directory that was emptied is a part of what it was. -/
theorem within_emptied {top : Node} {place : List String} (site : Site top place)
    (here : top.kindAt place = some .dir) : Within (top.put place .empty) top := by
  intro names k held
  by_cases below : place <+: names
  · obtain ⟨rest, rfl⟩ := below
    rw [kindAt, site.get?_put_below] at held
    cases rest with
    | nil =>
      cases held
      rw [List.append_nil]
      exact here
    | cons n more => cases held
  · rwa [(put_alike top .empty below).1] at held

/-- One directory is removed by a name. -/
theorem removeDir_ok {top after : Node} {path : String} (removed : top.removeDir path = .ok after) :
    ∃ before n place, (Path.parse path).parts = before ++ [.name n] ∧
      walkWithin top true 41 [] before = .ok place ∧ top.kindAt place = some .dir ∧
      after = top.erase (place ++ [n]) := by
  obtain ⟨parsed, opened, rest⟩ := ok_of_bind removed
  obtain ⟨place, walked, done⟩ := ok_of_bind rest
  rw [openPath_ok opened] at walked done
  split at done
  · cases done
  · cases done
  next entries n held last =>
    obtain ⟨before, parts⟩ := List.getLast?_eq_some_iff.mp last
    rw [parts, List.dropLast_concat] at walked
    split at done
    · cases done
    · split at done
      · cases done
      · cases done
        exact ⟨before, n, place, parts, walked, kindAt_dir.mpr ⟨_, held⟩, rfl⟩
      · cases done
      · cases done
  · cases done
  · cases done
  · cases done

section

variable {top : Node} {root folder n : String} {place : List String}

/-- Removing the directory at an entry of a directory changes nothing else. -/
theorem removeDirs_cleared {after : Node} (leads : Leads top root place)
    (names : Names top place folder n)
    (removed : top.removeDirs (Path.join root folder) = (after, .ok ())) :
    Cleared (place ++ [n]) top after := by
  have below : place ++ [n] ≠ [] := by simp
  unfold removeDirs at removed
  split at removed
  · cases removed
  next target located =>
    obtain rfl := leads.eq_of_locate_entry names (Or.inl rfl) located
    have site := locate_site located
    split at removed
    · cases removed
    · cases removed
    · cases removed
      exact Cleared.erase top below
    next entries held =>
      have here : top.kindAt (place ++ [n]) = some .dir := kindAt_dir.mpr ⟨entries, held⟩
      have emptied := Cleared.empty site
      dsimp only at removed
      split at removed
      next erased done =>
        cases removed
        obtain ⟨before, m, reached, parts, walked, dir, rfl⟩ := removeDir_ok done
        obtain ⟨dots, written⟩ := Path.parts_of_components names.relative names.single
        rw [Path.parts_join_relative leads.relative.1 names.relative, written] at parts
        cases dots with
        | zero =>
          obtain ⟨rfl, last⟩ := List.append_inj' parts rfl
          cases last
          -- The emptied tree is smaller, so its walk along the root ends where the old one did.
          have again := walkWithin_mono (within_emptied site here) walked (by simp [dir])
          obtain rfl : reached = place := Except.ok.inj (again.symm.trans leads.walked)
          exact ⟨fun names off => (emptied.outside names off).trans (erase_alike _ off),
            Or.inl (get?_erase _ below), fun proper => (emptied.proper proper).erase⟩
        | succ dots =>
          -- A directory is not removed by a dot.
          rw [List.replicate_succ', ← List.cons_append, ← List.append_assoc] at parts
          cases (List.append_inj' parts rfl).2
      · cases removed
        exact emptied
      · cases removed

/-- Removing a directory changes nothing else, also where it fails. -/
theorem removeDirs_outside (leads : Leads top root place) (names : Names top place folder n)
    {others : List String} (off : ¬ place ++ [n] <+: others) :
    Alike others top (top.removeDirs (Path.join root folder)).1 := by
  rcases result : top.removeDirs (Path.join root folder) with ⟨after, e | ⟨⟩⟩
  · unfold removeDirs at result
    split at result
    · cases result
      exact Alike.refl _ _
    next target located =>
      obtain rfl := leads.eq_of_locate_entry names (Or.inl rfl) located
      split at result
      · cases result
        exact Alike.refl _ _
      · cases result
        exact Alike.refl _ _
      · cases result
      next entries held =>
        dsimp only at result
        split at result
        · cases result
        · cases result
        · cases result
          exact put_alike top .empty off
  · exact (removeDirs_cleared leads names result).outside others off

/-- Where a path leads nowhere although something stands there, no directory is made: a link or a
file is in its way, or the path cannot be passed on. -/
theorem makeDirs_held (leads : Leads top root place) (names : Names top place folder n)
    (absent : top.pathExists (Path.join root folder) = false)
    (held : top.get? (place ++ [n]) ≠ none) :
    ∃ e, top.makeDirs (Path.join root folder) = (top, .error e) := by
  have written := Path.join_ne_empty leads.relative.1 names.relative
  have relative := Path.absolute_join leads.relative.1 names.relative
  rw [leads.relative.2] at relative
  have noDir : top.pathIsDir (Path.join root folder) = false := by
    unfold pathExists at absent
    unfold pathIsDir
    split at absent
    · cases absent
    next e unfound => rw [unfound]
  obtain ⟨left, dots, parts, walked⟩ := leads.walk_entry names false
  have reached : walkWithin top false 41 [] (Path.parse (Path.join root folder)).parts =
      .ok (place ++ [n]) ∨ ∃ e, e ≠ .notFound ∧
        walkWithin top false 41 [] (Path.parse (Path.join root folder)).parts = .error e := by
    rw [walked, walk_name leads.dir]
    split
    · exact Or.inr ⟨_, by simp, rfl⟩
    · rcases taken : top.kindAt (place ++ [n]) with _ | _ | target | _
      · exact absurd (kindAt_none.mp taken) held
      · cases dots with
        | zero => exact Or.inl rfl
        | succ dots =>
          obtain ⟨content, file⟩ := kindAt_file.mp taken
          refine Or.inr ⟨.notADirectory, by simp, ?_⟩
          rw [contentAt_eq_some] at file
          simp only [List.replicate_succ, walk, file]
      · rw [names.bare taken, Path.parts_name names.isName] at parts
        rw [← (List.cons.inj parts).2]
        exact Or.inl rfl
      · exact Or.inl (walk_dots dots taken)
  have refused : ∃ e, e ≠ .notFound ∧ top.makeDir (Path.join root folder) = .error e := by
    unfold makeDir
    cases opened : openPath (Path.join root folder) with
    | error e => exact ⟨e, openPath_refused written relative opened, rfl⟩
    | ok parsed =>
      rw [openPath_ok opened]
      rcases reached with there | ⟨e, other, failed⟩
      · obtain ⟨node, some⟩ := Option.ne_none_iff_exists'.mp held
        exact ⟨.alreadyExists, by simp, by simp only [bind, Except.bind, there, some]⟩
      · exact ⟨e, other, by simp only [bind, Except.bind, failed]⟩
  obtain ⟨e, other, refused⟩ := refused
  exact ⟨e, makeDirs_refused written relative noDir refused other⟩

end

end AutoDoc.Node
