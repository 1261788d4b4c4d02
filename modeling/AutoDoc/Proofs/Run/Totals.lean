import AutoDoc.Proofs.Document.Settled
import AutoDoc.Proofs.Run.Targets
import Mathlib.Algebra.Order.BigOperators.Group.List
import Mathlib.Data.List.Perm.Subperm

/-!
# Totals that fit a word

The blocks of a file stand at different lines, and there are no more line numbers than 32 bits give
(`Elements.toDocument_length`). The files of a run are different files of its tree
(`Prepared.files_length`). So the total of inserted blocks fits 64 bits as long as the tree has fewer
than `2 ^ 32` nodes (`Worked.counted`), and where it fits, summing up fails at most for want of a time
(`Counted.ofOutcomes_ok`).
-/

namespace AutoDoc

/-! ### Blocks of a file -/

/-- There are no more elements to document than there are line numbers. -/
theorem Elements.toDocument_length (es : Elements) : es.toDocument.length ≤ UInt32.size := by
  have distinct : (es.toDocument.map fun e => e.startLine.toNat).Nodup := by
    rw [List.Nodup, List.pairwise_map]
    exact es.toDocument_descending.imp fun below => Nat.ne_of_gt below
  have small : es.toDocument.map (fun e => e.startLine.toNat) ⊆ List.range UInt32.size := by
    intro line member
    obtain ⟨e, _, rfl⟩ := List.mem_map.mp member
    exact List.mem_range.mpr e.startLine.toNat_lt
  simpa using (distinct.subperm small).length_le

theorem Document.Job.revision_inserted_le {σ : Type} (job : Job σ) (extraction : Extraction) :
    (job.revision extraction).inserted ≤ UInt32.size := by
  rw [job.revision_inserted]
  exact List.countP_le_length.trans (Elements.toDocument_length _)

/-- Numbers that fit 64 bits in total are added up. -/
theorem Summary.sum64_of_lt {total : Nat} {numbers : List Nat}
    (small : total + numbers.sum < Word.limit64) :
    Summary.sum64 total numbers = .ok (total + numbers.sum) := by
  induction numbers generalizing total with
  | nil => rfl
  | cons n rest ih =>
    rw [List.sum_cons, ← Nat.add_assoc] at small ⊢
    rw [Summary.sum64, if_pos (by omega), ih small]

/-! ### Nodes of a tree -/

theorem Node.mem_listEntries {entries : List (String × Node)} {found : List String × Node} :
    found ∈ Node.listEntries entries ↔ ∃ e ∈ entries, found = ([e.1], e.2) ∨
      ∃ below ∈ e.2.listing, found = (e.1 :: below.1, below.2) := by
  induction entries with
  | nil => simp [Node.listEntries]
  | cons entry rest ih =>
    rcases entry with ⟨name, node⟩
    rw [Node.listEntries, List.mem_append, List.mem_cons, List.mem_map, ih]
    simp [eq_comm]

/-- Every file below is listed. -/
theorem Node.mem_listing {node : Node} {names : List String} {content : ByteArray}
    (below : names ≠ []) (held : node.get? names = some (.file content)) :
    (names, .file content) ∈ node.listing := by
  induction names generalizing node with
  | nil => exact absurd rfl below
  | cons n rest ih =>
    obtain ⟨entries, child, rfl, found, under⟩ := Node.get?_cons_eq_some held
    rw [Node.listing, Node.mem_listEntries]
    refine ⟨(n, child), mem_of_lookup found, ?_⟩
    cases rest with
    | nil =>
      obtain rfl : child = .file content := by simpa [Node.get?] using under
      exact Or.inl rfl
    | cons m more => exact Or.inr ⟨_, ih (List.cons_ne_nil m more) under, rfl⟩

namespace Run

section

variable {σ : Type} (parser : Parser) (toolkit : Option (Toolkit σ)) (indentWidth : Nat)

/-- A line number has 32 bits, so no more blocks are inserted into one file than there are of these. -/
theorem documentGuarded_inserted (path : String) (tree : Node) (progress : Document.Progress σ) :
    Summary.insertedBy (documentGuarded parser toolkit indentWidth path tree progress).1 ≤
      UInt32.size := by
  unfold documentGuarded
  rcases result : tree.documentFile parser {} toolkit indentWidth path progress with
    ⟨fault | (inserted | reason), next, counted⟩
  · exact Nat.zero_le _
  · obtain ⟨_, _, _, _, _, _, _, _, _, _, _, rfl, _⟩ := Node.documentFile_documented result
    exact Document.Job.revision_inserted_le _ _
  · exact Nat.zero_le _

theorem documentAll_inserted (paths : List String) (tree : Node)
    (progress : Document.Progress σ) :
    ∀ o ∈ (documentAll parser toolkit indentWidth paths tree progress).1,
      Summary.insertedBy o ≤ UInt32.size := by
  induction paths generalizing tree progress with
  | nil => exact fun o absent => by cases absent
  | cons path rest ih =>
    have first := documentGuarded_inserted parser toolkit indentWidth path tree progress
    exact List.forall_mem_cons.mpr ⟨first, ih _ _⟩

end

section

variable {π : Type} (host : Host π) (options : RunOptions) (settings : Settings)
  (env : Environment)

/-- No file of a run gets more blocks than there are line numbers. -/
theorem work_inserted : ∀ o ∈ (work host options settings env).1,
    Summary.insertedBy o ≤ UInt32.size := by
  unfold work
  dsimp only
  split
  next parser files _ _ =>
    rcases startService host options settings { env with tree := backedUp options settings env } with
      ⟨_ | ⟨program, service⟩, next⟩
    · exact documentAll_inserted parser (none : Option (Toolkit Unit)) settings.indentWidth files
        next.tree _
    · exact documentAll_inserted parser (some (Worker.Service.toolkit program service.verbs))
        settings.indentWidth files next.tree _
  next => exact fun o absent => by cases absent

variable {host options settings env}

/-! ### Files of a run -/

/-- A run has no more files than its tree has nodes, or has just one. -/
theorem Prepared.files_length {root : List String} (ready : Prepared options settings env root)
    {files : List String}
    (listed : filesOf options settings (backedUp options settings env) = .ok files) :
    files.length ≤ max 1 env.tree.listing.length := by
  rcases ready.files_cases listed with ⟨found, _, rfl, nodup, known⟩ | ⟨path, _, rfl, _⟩
  · have distinct : (found.map (root ++ ·)).Nodup :=
      nodup.map fun _ _ same => List.append_cancel_left same
    have inTree : found.map (root ++ ·) ⊆ env.tree.listing.map (·.1) := by
      intro names member
      obtain ⟨below, inFound, rfl⟩ := List.mem_map.mp member
      have before := ready.found_before (known below inFound)
      obtain ⟨content, held⟩ := before.file
      exact List.mem_map_of_mem (Node.mem_listing (by simp [before.below]) held)
    have count := (distinct.subperm inTree).length_le
    rw [List.length_map, List.length_map] at count
    rw [List.length_map]
    exact count.trans (Nat.le_max_right _ _)
  · exact Nat.le_max_left _ _

variable (host options settings env) in
/-- The inserted blocks can be counted in 64 bits. -/
def Counted : Prop :=
  ((work host options settings env).1.map Summary.insertedBy).sum < Word.limit64

instance : Decidable (Counted host options settings env) :=
  inferInstanceAs (Decidable (_ < _))

/-- The blocks can be counted if the tree has fewer than `2 ^ 32` nodes. -/
theorem Worked.counted (worked : Worked host options settings env) {root : List String}
    (ready : Prepared options settings env root) (small : env.tree.listing.length < 2 ^ 32) :
    Counted host options settings env := by
  have count := ready.files_length worked.files
  rw [List.length_map] at count
  have total := List.sum_le_card_nsmul
    ((work host options settings env).1.map Summary.insertedBy) UInt32.size (by
      intro n member
      obtain ⟨o, inOutcomes, rfl⟩ := List.mem_map.mp member
      exact work_inserted host options settings env o inOutcomes)
  rw [List.length_map, Nat.nsmul_eq_mul] at total
  have bound : (work host options settings env).1.length ≤ 2 ^ 32 - 1 := by omega
  have product := Nat.mul_le_mul_right UInt32.size bound
  have whole : (2 ^ 32 - 1) * UInt32.size < Word.limit64 := by decide
  unfold Counted
  omega

/-- On a clock whose time has a text, what can be counted is summed up. -/
theorem Counted.ofOutcomes_ok (counted : Counted host options settings env)
    {started : Calendar.Instant} (told : (Calendar.timestamp started).isOk = true) :
    ∃ summary, Summary.ofOutcomes started (work host options settings env).1 = .ok summary := by
  have fits : 0 + ((work host options settings env).1.map Summary.insertedBy).sum <
      Word.limit64 := by rwa [Nat.zero_add]
  unfold Summary.ofOutcomes
  rw [Summary.sum64_of_lt fits]
  cases text : Calendar.timestamp started with
  | error fault =>
    rw [text] at told
    cases told
  | ok startedAt => exact ⟨_, rfl⟩

end

end Run

end AutoDoc
