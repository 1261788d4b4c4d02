import AutoDoc.Outline.Fixed
import AutoDoc.Proofs.Discovery.Basic
import AutoDoc.Proofs.Document.Steady
import AutoDoc.Proofs.Run.Confinement

/-!
# The order of files does not matter

Files may be documented in any order, as threads do that take them in turn. Discovered paths lead to
different files, and documenting one changes no other; so with a steady parser and a steady toolkit
each file comes to what it would come to alone (`documentAll_alone`), and the tree that is left in
the end is the same for every order (`order_does_not_matter`). A file has one place in a tree: two
names for one file, as hard links give them, are outside what is modelled.
-/

namespace AutoDoc.Run

open Node FileOutcome

/-! ### One file -/

/-- What is read at a path depends on the kinds of nodes and on the bytes of the file it leads to. -/
theorem readText_congr {top tree : Node} {path : String}
    (kinds : ∀ names, tree.kindAt names = top.kindAt names)
    (same : ∀ place, top.locate true path = .ok place →
      tree.contentAt place = top.contentAt place) : tree.readText path = top.readText path := by
  have found : tree.readBytes path = top.readBytes path := by
    unfold readBytes find
    rw [locate_congr kinds]
    cases located : top.locate true path with
    | error e => rfl
    | ok place =>
      have kind := kinds place
      have bytes := same place located
      simp only [kindAt, contentAt] at kind bytes
      simp only [bind, Except.bind]
      rcases here : top.get? place with _ | (_ | _ | _) <;>
        rcases there : tree.get? place with _ | (_ | _ | _) <;>
        simp_all [Node.kind, content?, pure, Except.pure]
  unfold readText
  rw [found]

section

variable {σ : Type} {parser : Parser} {toolkit : Option (Toolkit σ)} {indentWidth : Nat}
  {path : String} {top tree : Node}

/-- Documenting puts a file where one stood, so names stay names and in order. -/
theorem documentGuarded_proper (proper : tree.Proper) (progress : Document.Progress σ) :
    (documentGuarded parser toolkit indentWidth path tree progress).2.1.Proper := by
  unfold documentGuarded
  rcases tree.documentFile_cases parser {} toolkit indentWidth path progress with
    ⟨e, _, result⟩ | ⟨source, place, _, located, held, result⟩
  · rw [result]
    exact proper
  · dsimp only at result
    rcases ran : (Document.Job.run ⟨parser, {}, toolkit, indentWidth, source, progress⟩).1 with
      (fault | reason) | draft
    · rw [result, ran]
      exact proper
    · rw [result, ran]
      exact proper
    · rw [result, ran]
      exact proper.put (locate_site located).names (.file _)

/-- A file that stands in two trees alike comes to the same in both, whenever it is worked on. -/
theorem documentGuarded_alone (constant : parser.Steady) (steady : ∀ t ∈ toolkit, t.Steady)
    (indentWidth : Nat) (kinds : ∀ names, tree.kindAt names = top.kindAt names)
    (same : ∀ place, top.locate true path = .ok place →
      tree.contentAt place = top.contentAt place) (p q : Document.Progress σ) :
    let here := documentGuarded parser toolkit indentWidth path tree p
    let alone := documentGuarded parser toolkit indentWidth path top q
    here.1 = alone.1 ∧ ∀ place, top.locate true path = .ok place →
      here.2.1.contentAt place = alone.2.1.contentAt place := by
  have read : tree.readText path = top.readText path := readText_congr kinds same
  unfold documentGuarded
  rcases top.documentFile_cases parser {} toolkit indentWidth path q with
    ⟨e, unread, result⟩ | ⟨source, place, known, located, held, result⟩
  · rcases tree.documentFile_cases parser {} toolkit indentWidth path p with
      ⟨e', unread', result'⟩ | ⟨_, _, known', _⟩
    · rw [read, unread] at unread'
      cases unread'
      rw [result, result']
      exact ⟨rfl, same⟩
    · rw [read, unread] at known'
      cases known'
  · rcases tree.documentFile_cases parser {} toolkit indentWidth path p with
      ⟨e', unread', _⟩ | ⟨source', place', known', located', held', result'⟩
    · rw [read, known] at unread'
      cases unread'
    · obtain rfl : source = source' := Except.ok.inj (known.symm.trans (read.symm.trans known'))
      rw [locate_congr kinds] at located'
      obtain rfl : place = place' := Except.ok.inj (located.symm.trans located')
      have run : (Document.Job.run ⟨parser, {}, toolkit, indentWidth, source, p⟩).1 =
          (Document.Job.run ⟨parser, {}, toolkit, indentWidth, source, q⟩).1 :=
        Document.Job.run_steady ⟨parser, {}, toolkit, indentWidth, source, q⟩ constant steady p
      dsimp only at result result'
      rw [run] at result'
      rcases ran : (Document.Job.run ⟨parser, {}, toolkit, indentWidth, source, q⟩).1 with
        (fault | reason) | draft
      · rw [result, result', ran]
        exact ⟨rfl, same⟩
      · rw [result, result', ran]
        exact ⟨rfl, same⟩
      · rw [result, result', ran]
        refine ⟨rfl, fun other located'' => ?_⟩
        obtain rfl : place = other := Except.ok.inj (located.symm.trans located'')
        simp only [contentAt, get?_put held, get?_put held']

end

/-! ### All files -/

section

variable {σ : Type} {parser : Parser} {toolkit : Option (Toolkit σ)} {indentWidth : Nat}
  {top : Node}

theorem documentAll_proper {tree : Node} (proper : tree.Proper) (order : List String)
    (progress : Document.Progress σ) :
    (documentAll parser toolkit indentWidth order tree progress).2.1.Proper := by
  induction order generalizing tree progress with
  | nil => exact proper
  | cons path rest ih => exact ih (documentGuarded_proper proper progress) _

/-- Paths lead to different places. -/
def Apart (top : Node) (paths : List String) : Prop :=
  paths.Pairwise fun path other => ∀ place, top.locate true path = .ok place →
    top.locate true other ≠ .ok place

/-- Paths that lead to different places come to what each of them would come to alone. -/
theorem documentAll_alone (constant : parser.Steady) (steady : ∀ t ∈ toolkit, t.Steady)
    {order : List String} (apart : Apart top order) {tree : Node}
    (kinds : ∀ names, tree.kindAt names = top.kindAt names)
    (fresh : ∀ path ∈ order, ∀ place, top.locate true path = .ok place →
      tree.contentAt place = top.contentAt place) (p q : Document.Progress σ) :
    let result := documentAll parser toolkit indentWidth order tree p
    let alone := fun path => documentGuarded parser toolkit indentWidth path top q
    result.1 = order.map (fun path => (alone path).1) ∧ ConfinedTo order tree result.2.1 ∧
      ∀ path ∈ order, ∀ place, top.locate true path = .ok place →
        result.2.1.contentAt place = (alone path).2.1.contentAt place := by
  induction order generalizing tree p with
  | nil => exact ⟨rfl, ConfinedTo.refl _ _, fun _ absent => absurd absent List.not_mem_nil⟩
  | cons path rest ih =>
    obtain ⟨first, later⟩ := List.pairwise_cons.mp apart
    obtain ⟨here, others⟩ := List.forall_mem_cons.mp fresh
    obtain ⟨outcome, bytes⟩ := documentGuarded_alone constant steady indentWidth kinds here p q
    have frame := (documentGuarded_confined parser toolkit indentWidth path tree p).2
    have only : ConfinedTo [path] tree
        (documentGuarded parser toolkit indentWidth path tree p).2.1 := by
      obtain ⟨named, frame⟩ := documentGuarded_confined parser toolkit indentWidth path tree p
      refine frame.mono fun other member => ?_
      obtain ⟨outcome, inOutcomes, rfl⟩ := List.mem_map.mp member
      rw [List.mem_singleton.mp (List.mem_of_mem_filter inOutcomes), named]
      exact List.mem_singleton_self path
    unfold documentAll
    rcases guarded : documentGuarded parser toolkit indentWidth path tree p with
      ⟨got, next, counted⟩
    rw [guarded] at outcome bytes only
    dsimp only at outcome bytes only ⊢
    have kinds' : ∀ names, next.kindAt names = top.kindAt names := fun names =>
      (only.kinds names).trans (kinds names)
    have fresh' : ∀ other ∈ rest, ∀ place, top.locate true other = .ok place →
        next.contentAt place = top.contentAt place := by
      intro other member place located
      rw [only.contents, others other member place located]
      rintro given inSingle located'
      rw [List.mem_singleton.mp inSingle, locate_congr kinds] at located'
      exact first other member place located' located
    obtain ⟨outcomes, frame, contents⟩ := ih later kinds' fresh' counted
    refine ⟨by rw [outcome, outcomes, List.map_cons], ?_, List.forall_mem_cons.mpr ⟨?_, contents⟩⟩
    · exact (only.mono (List.cons_subset_cons path (List.nil_subset rest))).trans
        (frame.mono (List.subset_cons_self path rest))
    · intro place located
      rw [frame.contents, bytes place located]
      intro other member located'
      rw [locate_congr kinds'] at located'
      exact first other member place located located'

end

/-! ### Discovered files -/

/-- Only a root that leads to a directory is searched. -/
theorem leads_of_discover {top : Node} {root extension : String} {settings : Settings}
    {files : List String} (discovered : top.discover root extension settings = .ok files) :
    ∃ place, Leads top root place := by
  unfold Node.discover at discovered
  split at discovered
  next place entries isRoot =>
    obtain ⟨located, here⟩ := find_ok isRoot
    exact ⟨place, located, kindAt_dir.mpr ⟨entries, here⟩⟩
  · cases discovered

/-- Discovered paths lead to different places, in whatever order they stand. -/
theorem apart_of_discover {top : Node} (proper : top.Proper) {root extension : String}
    {settings : Settings} {files order : List String}
    (discovered : top.discover root extension settings = .ok files) (permuted : order.Perm files) :
    order.Nodup ∧ Apart top order := by
  obtain ⟨place, leads⟩ := leads_of_discover discovered
  obtain ⟨found, rfl, nodup, known⟩ := Discovery.discover_ok proper leads discovered
  have distinct := permuted.nodup_iff.mpr (Discovery.nodup_paths leads nodup known)
  refine ⟨distinct, distinct.imp_of_mem ?_⟩
  intro path other member otherMember different reached located located'
  obtain ⟨names, inFound, rfl⟩ := List.mem_map.mp (permuted.mem_iff.mp member)
  obtain ⟨others, inFound', rfl⟩ := List.mem_map.mp (permuted.mem_iff.mp otherMember)
  -- Both lead straight to what their names say, so the names are the same.
  have here := (known names inFound).eq_of_locate leads located
  have there := (known others inFound').eq_of_locate leads located'
  exact different (by rw [List.append_cancel_left (here.symm.trans there)])

end AutoDoc.Run

namespace AutoDoc

/-- Outcomes as they are listed in the order of paths. -/
def FileOutcome.listed (paths : List String) (outcomes : List FileOutcome) : List FileOutcome :=
  paths.filterMap fun path => outcomes.find? fun o => o.path == path

/-- Outcomes that come in some order are listed back in another. -/
theorem FileOutcome.listed_of_perm {outcome : String → FileOutcome}
    (named : ∀ path, (outcome path).path = path) {paths order : List String}
    (permuted : order.Perm paths) : listed paths (order.map outcome) = paths.map outcome := by
  have found : ∀ path ∈ paths,
      (order.map outcome).find? (fun o => o.path == path) = some (outcome path) := by
    intro path member
    have there : (order.find? (· == path)).isSome = true :=
      List.find?_isSome.mpr ⟨path, permuted.mem_iff.mpr member, beq_self_eq_true path⟩
    obtain ⟨other, is⟩ := Option.isSome_iff_exists.mp there
    obtain rfl : other = path := by simpa using List.find?_some is
    have byPath : (fun o => o.path == other) ∘ outcome = (· == other) := by
      funext path
      rw [Function.comp_apply, named]
    rw [List.find?_map, byPath, is]
    rfl
  unfold listed
  rw [List.filterMap_congr found, List.filterMap_eq_map']

open Node FileOutcome Run in
/-- The order does not matter in which the discovered files of a proper tree are documented. With a
parser and a toolkit that answer by their arguments alone, the outcomes listed in the order of
discovery, and the file at each path, are those of documenting that file alone; nothing else has
changed; and every other order leaves the same tree and the same list. -/
theorem order_does_not_matter {σ : Type} (parser : Parser) (toolkit : Option (Toolkit σ))
    (indentWidth : Nat) (top : Node) (root extension : String) (settings : Settings)
    (files order : List String) (p q : Document.Progress σ) (proper : top.Proper)
    (constant : parser.Steady) (steady : ∀ t ∈ toolkit, t.Steady)
    (discovered : top.discover root extension settings = .ok files)
    (permuted : order.Perm files) :
    let alone := fun path => documentGuarded parser toolkit indentWidth path top q
    let result := documentAll parser toolkit indentWidth order top p
    listed files result.1 = files.map (fun path => (alone path).1) ∧
    (∀ path ∈ files, ∀ place, top.locate true path = .ok place →
      result.2.1.contentAt place = (alone path).2.1.contentAt place) ∧
    (∀ names, (∀ path ∈ files, top.locate true path ≠ .ok names) →
      result.2.1.contentAt names = top.contentAt names) ∧
    (∀ names, result.2.1.kindAt names = top.kindAt names) ∧
    ∀ (other : List String) (r : Document.Progress σ), other.Perm files →
      let again := documentAll parser toolkit indentWidth other top r
      again.2.1 = result.2.1 ∧ listed files again.1 = listed files result.1 := by
  intro alone result
  have come : ∀ (order : List String) (r : Document.Progress σ), order.Perm files →
      let made := documentAll parser toolkit indentWidth order top r
      listed files made.1 = files.map (fun path => (alone path).1) ∧
        ConfinedTo files top made.2.1 ∧ made.2.1.Proper ∧
        ∀ path ∈ files, ∀ place, top.locate true path = .ok place →
          made.2.1.contentAt place = (alone path).2.1.contentAt place := by
    intro order r permuted made
    obtain ⟨outcomes, frame, contents⟩ := documentAll_alone constant steady
      (apart_of_discover proper discovered permuted).2 (fun _ => rfl) (fun _ _ _ _ => rfl) r q
    refine ⟨?_, frame.mono permuted.subset, documentAll_proper proper order r,
      fun path member => contents path (permuted.mem_iff.mpr member)⟩
    rw [show made.1 = order.map fun path => (alone path).1 from outcomes]
    exact listed_of_perm (fun path => (documentGuarded_confined parser toolkit indentWidth path
      top q).1) permuted
  obtain ⟨outcomes, frame, properly, contents⟩ := come order p permuted
  refine ⟨outcomes, contents, frame.contents, frame.kinds, fun other r permuted' => ?_⟩
  obtain ⟨outcomes', frame', properly', contents'⟩ := come other r permuted'
  refine ⟨properly.ext properly' (fun names => ?_) (fun names => ?_), outcomes'.trans outcomes.symm⟩
  · exact (frame'.kinds names).trans (frame.kinds names).symm
  · by_cases led : ∃ path ∈ files, top.locate true path = .ok names
    · obtain ⟨path, member, located⟩ := led
      rw [contents' path member names located]
      exact (contents path member names located).symm
    · have off : ∀ path ∈ files, top.locate true path ≠ .ok names := fun path member located =>
        led ⟨path, member, located⟩
      rw [frame'.contents names off]
      exact (frame.contents names off).symm

set_option maxRecDepth 100000 in
/-- Two files that are both documented, in one order and in the other. -/
theorem order_does_not_matter_swapped :
    let source := "def f():\n    return 1\n".toUTF8
    let top : Node := .dir [("a.py", .file source), ("b.py", .file source)]
    let toolkit : Option (Toolkit Unit) := some ({} : TableToolkit).toolkit
    let files := ["./a.py", "./b.py"]
    (Run.documentAll Parser.indentation toolkit 4 files top ⟨0, ()⟩).1 =
        [⟨"./a.py", .documented 1⟩, ⟨"./b.py", .documented 1⟩] ∧
      FileOutcome.listed files
          (Run.documentAll Parser.indentation toolkit 4 files.reverse top ⟨7, ()⟩).1 =
        FileOutcome.listed files
          (Run.documentAll Parser.indentation toolkit 4 files top ⟨0, ()⟩).1 ∧
      (Run.documentAll Parser.indentation toolkit 4 files.reverse top ⟨7, ()⟩).2.1 =
        (Run.documentAll Parser.indentation toolkit 4 files top ⟨0, ()⟩).2.1 := by
  intro source top toolkit files
  have admitted : (top.filesBelow ({} : Settings).excludesDir).filter
      (Discovery.admits {} "py") = [["a.py"], ["b.py"]] := by decide +kernel
  have discovered : top.discover "." "py" {} = .ok files := by
    have relative : Discovery.relative {} "py" top = [["a.py"], ["b.py"]] := by
      rw [Discovery.relative, admitted, List.mergeSort_of_pairwise (by decide)]
    have found : top.find "." = .ok ([], top) := rfl
    rw [Node.discover, found]
    dsimp only [top] at relative ⊢
    rw [relative, if_neg (by decide +kernel)]
    rfl
  obtain ⟨_, _, _, _, again⟩ := order_does_not_matter Parser.indentation toolkit 4 top "." "py" {}
    files files ⟨0, ()⟩ ⟨0, ()⟩ (by decide +kernel) (fun _ _ _ => rfl)
    (fun t is => Option.some.inj is ▸ TableToolkit.steady {}) discovered (List.Perm.refl _)
  obtain ⟨tree, outcomes⟩ := again files.reverse ⟨7, ()⟩ files.reverse_perm
  exact ⟨by decide +kernel, outcomes, tree⟩

end AutoDoc
