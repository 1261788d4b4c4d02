import AutoDoc.Fault
import AutoDoc.Proofs.Keyed
import AutoDoc.Tree.Access
import Mathlib.Data.List.Basic

/-!
# What a write leaves alone

A tree is looked at from outside: at every list of names there is a file, a link, a directory or
nothing (`Node.kindAt`), and a file has its bytes (`Node.contentAt`). Two trees that agree on both
at every list of names hold the same files.

* `SameBut.put` — replacing the file at a place changes no kind anywhere and no bytes elsewhere;
* `locate_congr` — where a path leads to depends on kinds only;
* `locate_of_linkFree` — a path without links leads to the place that its parts spell;
* `writeText_after_read` — a file that could be read can be written, at that place and no other;
* `readText_after_write` — and then reading it gives what was written.
-/

namespace AutoDoc

namespace Node

/-- What kind of node something is; a link is told apart by its target. -/
inductive Kind where
  | file
  | link (target : String)
  | dir
deriving DecidableEq, Repr

def kind : Node → Kind
  | .file _ => .file
  | .link target => .link target
  | .dir _ => .dir

def content? : Node → Option ByteArray
  | .file content => some content
  | _ => none

/-- The kind of what stands at a list of names. -/
def kindAt (top : Node) (names : List String) : Option Kind := (top.get? names).map kind

/-- The bytes of the file at a list of names. -/
def contentAt (top : Node) (names : List String) : Option ByteArray :=
  (top.get? names).bind content?

/-- Two trees differ at most in the bytes of the file at one place. -/
structure SameBut (place : List String) (before after : Node) : Prop where
  kinds : ∀ names, after.kindAt names = before.kindAt names
  contents : ∀ names, names ≠ place → after.contentAt names = before.contentAt names

theorem SameBut.refl (place : List String) (top : Node) : SameBut place top top :=
  ⟨fun _ => rfl, fun _ _ => rfl⟩

/-! ### Putting a file -/

theorem lookup_putEntry (name n : String) (node : Node) (entries : List (String × Node)) :
    (putEntry name node entries).lookup n =
      if n = name then some node else entries.lookup n := by
  induction entries with
  | nil => rw [putEntry, lookup_cons_eq_if]
  | cons entry rest ih =>
    rcases entry with ⟨m, old⟩
    unfold putEntry
    split
    next taken =>
      subst taken
      rw [lookup_cons_eq_if, lookup_cons_eq_if]
      by_cases same : n = m <;> simp [same]
    next free =>
      split
      · rw [lookup_cons_eq_if]
      · rw [lookup_cons_eq_if, lookup_cons_eq_if, ih]
        by_cases here : n = m
        · subst here
          simp [free]
        · simp [here]

theorem put_cons {entries : List (String × Node)} {name : String} {child : Node}
    (held : entries.lookup name = some child) (rest : List String) (new : Node) :
    (Node.dir entries).put (name :: rest) new =
      .dir (putEntry name (child.put rest new) entries) := by
  cases rest with
  | nil => simp [put]
  | cons next more => simp [put, held]

@[simp] theorem get?_cons_dir (name : String) (rest : List String)
    (entries : List (String × Node)) :
    get? (name :: rest) (.dir entries) = (entries.lookup name).bind (get? rest) := by
  simp [get?]

theorem get?_cons_eq_some {name : String} {rest : List String} {top node : Node}
    (held : top.get? (name :: rest) = some node) :
    ∃ entries child, top = .dir entries ∧ entries.lookup name = some child ∧
      child.get? rest = some node := by
  cases top with
  | dir entries =>
    rw [get?_cons_dir] at held
    obtain ⟨child, found, below⟩ := Option.bind_eq_some_iff.mp held
    exact ⟨entries, child, rfl, found, below⟩
  | file content => simp [get?] at held
  | link target => simp [get?] at held

/-- A list of names is followed in two parts. -/
theorem get?_append (before after : List String) (top : Node) :
    top.get? (before ++ after) = (top.get? before).bind (get? after) := by
  induction before generalizing top with
  | nil => simp [get?]
  | cons name rest ih =>
    cases top with
    | dir entries =>
      rw [List.cons_append, get?_cons_dir, get?_cons_dir, Option.bind_assoc]
      congr 1
      funext child
      exact ih child
    | file content => simp [get?]
    | link target => simp [get?]

theorem get?_put {top old new : Node} {place : List String} (held : top.get? place = some old) :
    (top.put place new).get? place = some new := by
  induction place generalizing top with
  | nil => simp [put, get?]
  | cons name rest ih =>
    obtain ⟨entries, child, rfl, found, below⟩ := get?_cons_eq_some held
    rw [put_cons found, get?_cons_dir, lookup_putEntry, if_pos rfl]
    exact ih below

/-- Replacing the bytes of a file changes nothing else. -/
theorem SameBut.put {top : Node} {place : List String} {old : ByteArray}
    (held : top.get? place = some (.file old)) (new : ByteArray) :
    SameBut place top (top.put place (.file new)) := by
  induction place generalizing top with
  | nil =>
    obtain rfl : top = .file old := by simpa [get?] using held
    refine ⟨?_, ?_⟩
    · intro names
      cases names <;> rfl
    · intro names other
      cases names with
      | nil => exact absurd rfl other
      | cons name rest => rfl
  | cons name rest ih =>
    obtain ⟨entries, child, rfl, found, below⟩ := get?_cons_eq_some held
    have inner := ih below
    rw [put_cons found]
    refine ⟨?_, ?_⟩
    · intro names
      cases names with
      | nil => rfl
      | cons first more =>
        simp only [kindAt, get?_cons_dir, lookup_putEntry]
        by_cases same : first = name
        · subst same
          rw [if_pos rfl, found]
          exact inner.kinds more
        · rw [if_neg same]
    · intro names other
      cases names with
      | nil => rfl
      | cons first more =>
        simp only [contentAt, get?_cons_dir, lookup_putEntry]
        by_cases same : first = name
        · subst same
          rw [if_pos rfl, found]
          exact inner.contents more (fun eq => other (by rw [eq]))
        · rw [if_neg same]

/-! ### Following a path -/

theorem kindAt_child {top : Node} {place : List String} {entries : List (String × Node)}
    (here : top.get? place = some (.dir entries)) (n : String) :
    top.kindAt (place ++ [n]) = (entries.lookup n).map kind := by
  have child : (Node.dir entries).get? [n] = entries.lookup n := by
    rw [get?_cons_dir]
    cases entries.lookup n <;> rfl
  rw [kindAt, get?_append, here, Option.bind_some, child]

/-- A walk asks for nothing but the kinds of nodes. -/
theorem walk_congr {top other : Node} (kinds : ∀ names, other.kindAt names = top.kindAt names)
    (followLast : Bool) (onLink : List String → List Path.Part → Except OsError (List String))
    (parts : List Path.Part) (place : List String) :
    walk other followLast onLink place parts = walk top followLast onLink place parts := by
  induction parts generalizing place with
  | nil => rfl
  | cons part rest ih =>
    have here := kinds place
    unfold walk
    cases inTop : top.get? place with
    | none =>
      cases inOther : other.get? place with
      | none => rfl
      | some node => simp [kindAt, inTop, inOther] at here
    | some node =>
      cases inOther : other.get? place with
      | none => simp [kindAt, inTop, inOther] at here
      | some node' =>
        have alike : node'.kind = node.kind := by simpa [kindAt, inTop, inOther] using here
        cases node with
        | file _ => cases node' <;> simp_all [kind]
        | link _ => cases node' <;> simp_all [kind]
        | dir entries =>
          cases node' with
          | file _ => simp [kind] at alike
          | link _ => simp [kind] at alike
          | dir entries' =>
            cases part with
            | current => exact ih place
            | parent => simp only [ih]
            | name n =>
              -- The entries differ, but not in the kind of what is found under the name.
              have below := kinds (place ++ [n])
              rw [kindAt_child inTop, kindAt_child inOther] at below
              simp only [ih]
              rcases found : entries.lookup n with _ | (_ | _ | _) <;>
                rcases found' : entries'.lookup n with _ | (_ | _ | _) <;>
                simp_all [kind]

theorem walkWithin_congr {top other : Node}
    (kinds : ∀ names, other.kindAt names = top.kindAt names) (followLast : Bool) (links : Nat) :
    walkWithin other followLast links = walkWithin top followLast links := by
  induction links with
  | zero => rfl
  | succ links ih =>
    funext place parts
    simp only [walkWithin, ih]
    exact walk_congr kinds _ _ _ _

/-- Where a path leads to depends on the kinds of nodes only. -/
theorem locate_congr {top other : Node} (kinds : ∀ names, other.kindAt names = top.kindAt names)
    (followLast : Bool) (path : String) :
    other.locate followLast path = top.locate followLast path := by
  unfold locate
  rw [show walkWithin other = walkWithin top by
    funext follow links
    exact walkWithin_congr kinds follow links]
  congr 1
  funext parsed
  congr 1
  funext place
  have here := kinds place
  rcases inTop : top.get? place with _ | (_ | _ | _) <;>
    rcases inOther : other.get? place with _ | (_ | _ | _) <;>
    cases slash : parsed.slashAtEnd <;> simp_all [kindAt, kind]

theorem openPath_ok {path : String} {parsed : Path.Parsed} (opened : openPath path = .ok parsed) :
    parsed = Path.parse path := by
  unfold openPath at opened
  dsimp only at opened
  split at opened
  · cases opened
  · split at opened
    · cases opened
    · split at opened
      · cases opened
      · exact (Except.ok.inj opened).symm

/-- A path that leads somewhere can be passed on, and its parts can be walked. -/
theorem locate_walked {top : Node} {followLast : Bool} {path : String} {place : List String}
    (found : top.locate followLast path = .ok place) :
    openPath path = .ok (Path.parse path) ∧
      walkWithin top (followLast || (Path.parse path).slashAtEnd) 41 [] (Path.parse path).parts =
        .ok place := by
  obtain ⟨parsed, opened, rest⟩ := ok_of_bind found
  obtain ⟨reached, walked, check⟩ := ok_of_bind rest
  obtain rfl : reached = place := by
    split at check
    · exact Except.ok.inj check
    · cases check
    · exact Except.ok.inj check
  obtain rfl := openPath_ok opened
  exact ⟨opened, walked⟩

theorem locate_ok {top : Node} {followLast : Bool} {path : String} {place : List String}
    (found : top.locate followLast path = .ok place) :
    ∃ follow, walkWithin top follow 41 [] (Path.parse path).parts = .ok place :=
  ⟨_, (locate_walked found).2⟩

theorem find_ok {top node : Node} {path : String} {place : List String}
    (found : top.find path = .ok (place, node)) :
    top.locate true path = .ok place ∧ top.get? place = some node := by
  obtain ⟨reached, located, held⟩ := ok_of_bind found
  split at held
  next there =>
    cases held
    exact ⟨located, there⟩
  · cases held

end Node

/-- The place that parts spell from a place on, without looking at any tree. -/
def Path.spell : List String → List Path.Part → List String
  | place, [] => place
  | place, .current :: rest => spell place rest
  | place, .parent :: rest => spell place.dropLast rest
  | place, .name n :: rest => spell (place ++ [n]) rest

/-- The place that a relative path spells. -/
def Path.names (path : String) : List String := Path.spell [] (Path.parse path).parts

namespace Node

/-- No symbolic link stands at any component of a path. -/
def LinkFree (top : Node) (path : String) : Prop :=
  ∀ parts, parts <+: (Path.parse path).parts →
    ∀ target, top.kindAt (Path.spell [] parts) ≠ some (.link target)

/-- Without links a walk ends where its parts spell. -/
theorem walk_of_linkFree {top : Node} {followLast : Bool}
    {onLink : List String → List Path.Part → Except OsError (List String)}
    (parts : List Path.Part) {place reached : List String}
    (free : ∀ some, some <+: parts → ∀ target,
      top.kindAt (Path.spell place some) ≠ .some (.link target))
    (walked : walk top followLast onLink place parts = .ok reached) :
    reached = Path.spell place parts := by
  induction parts generalizing place with
  | nil =>
    exact (Except.ok.inj walked).symm
  | cons part rest ih =>
    have onward : ∀ next, Path.spell place [part] = next →
        (∀ more, Path.spell next more = Path.spell place (part :: more)) →
        walk top followLast onLink next rest = .ok reached →
        reached = Path.spell place (part :: rest) := by
      intro next _ spelled further
      rw [← spelled]
      apply ih _ further
      intro some before target
      rw [spelled]
      exact free (part :: some) (List.prefix_cons_inj part |>.mpr before) target
    unfold walk at walked
    split at walked
    next entries here =>
      cases part with
      | current => exact onward place rfl (fun _ => rfl) walked
      | parent =>
        dsimp only at walked
        split at walked
        · cases walked
        · exact onward place.dropLast rfl (fun _ => rfl) walked
      | name n =>
        dsimp only at walked
        split at walked
        · cases walked
        · split at walked
          · split at walked
            next empty =>
              rw [List.isEmpty_iff.mp empty]
              exact (Except.ok.inj walked).symm
            · cases walked
          next target found =>
            -- The link that was found contradicts the hypothesis at this very component.
            have absent := free [.name n] (by simp) target
            simp [Path.spell, kindAt_child here, found, kind] at absent
          · exact onward (place ++ [n]) rfl (fun _ => rfl) walked
    · cases walked
    · cases walked

/-- A path without symbolic links leads to the place that it spells. -/
theorem locate_of_linkFree {top : Node} {followLast : Bool} {path : String} {place : List String}
    (free : top.LinkFree path) (found : top.locate followLast path = .ok place) :
    place = Path.names path := by
  obtain ⟨follow, walked⟩ := locate_ok found
  exact walk_of_linkFree _ free walked

/-! ### Reading and writing -/

theorem fromUTF8?_eq_some {bytes : ByteArray} {text : String}
    (decoded : String.fromUTF8? bytes = some text) : bytes = text.toUTF8 := by
  unfold String.fromUTF8? at decoded
  split at decoded
  · cases decoded
    rfl
  · cases decoded

theorem fromUTF8?_toUTF8 (text : String) : String.fromUTF8? text.toUTF8 = some text := by
  unfold String.fromUTF8?
  exact dif_pos text.isValidUTF8

/-- A text that was read is the file at the place that its path leads to. -/
theorem readText_ok {top : Node} {path text : String} (read : top.readText path = .ok text) :
    ∃ place, top.locate true path = .ok place ∧ top.get? place = some (.file text.toUTF8) := by
  obtain ⟨bytes, gotten, decoded⟩ := ok_of_bind read
  obtain ⟨⟨place, node⟩, found, isFile⟩ := ok_of_bind gotten
  obtain ⟨reached, inside⟩ := find_ok found
  cases node with
  | file content =>
    cases isFile
    split at decoded
    next valid =>
      cases decoded
      exact ⟨place, reached, by rw [inside, fromUTF8?_eq_some valid]⟩
    · cases decoded
  | link _ => cases isFile
  | dir _ => cases isFile

theorem readText_of_locate {top : Node} {path text : String} {place : List String}
    (located : top.locate true path = .ok place)
    (held : top.get? place = some (.file text.toUTF8)) : top.readText path = .ok text := by
  simp only [readText, readBytes, find, located, held, bind, Except.bind, pure, Except.pure,
    fromUTF8?_toUTF8]

/-- A file that could be read can be written; this replaces the bytes at the place that its path
leads to. -/
theorem writeText_after_read {top : Node} {path old : String} {place : List String}
    (located : top.locate true path = .ok place)
    (held : top.get? place = some (.file old.toUTF8)) (text : String) :
    top.writeText path text = .ok (top.put place (.file text.toUTF8)) := by
  simp only [writeText, writeBytes, located, held, bind, Except.bind, pure, Except.pure]

/-- What was written is what is read. -/
theorem readText_after_write {top : Node} {path old : String} {place : List String}
    (located : top.locate true path = .ok place)
    (held : top.get? place = some (.file old.toUTF8)) (text : String) :
    (top.put place (.file text.toUTF8)).readText path = .ok text := by
  have again : (top.put place (.file text.toUTF8)).locate true path = .ok place := by
    rw [locate_congr (SameBut.put held _).kinds]
    exact located
  exact readText_of_locate again (get?_put held)

end Node

end AutoDoc
