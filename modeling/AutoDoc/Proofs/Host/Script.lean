import AutoDoc.Host.Script
import AutoDoc.Proofs.Run.Confinement

/-!
# Scripted programs keep to their paths

The scripted formatter takes four arguments of its own. Behind them it is given paths, and it puts a
text behind the files that these lead to; so it is confined to them (`Script.confined`).
-/

namespace AutoDoc.Script

open Node

/-- A scripted formatter writes to the file at its path only. -/
theorem appendTo_confined (suffix : String) (top : Node) (path : String) :
    ConfinedTo [path] top (appendTo suffix top path) := by
  unfold appendTo
  split
  · exact ConfinedTo.refl _ _
  next content read =>
    cases written : top.writeBytes path (content ++ suffix.toUTF8) with
    | error e => exact ConfinedTo.refl _ _
    | ok after =>
      obtain ⟨⟨place, node⟩, found, isFile⟩ := ok_of_bind read
      obtain ⟨located, held⟩ := find_ok found
      cases node with
      | link target => cases isFile
      | dir entries => cases isFile
      | file old =>
        simp only [writeBytes, located, held, bind, Except.bind, pure, Except.pure,
          Except.ok.injEq] at written
        subst written
        have frame := SameBut.put held (content ++ suffix.toUTF8)
        refine ⟨frame.kinds, fun names other => frame.contents names ?_⟩
        rintro rfl
        exact other path List.mem_cons_self located

theorem foldl_appendTo_confined (suffix : String) (paths : List String) (top : Node) :
    ConfinedTo paths top (paths.foldl (appendTo suffix) top) := by
  induction paths generalizing top with
  | nil => exact ConfinedTo.refl _ _
  | cons path rest ih =>
    have first := appendTo_confined suffix top path
    exact (first.mono (by simp)).trans ((ih _).mono (List.subset_cons_self _ _))

/-- With at most four arguments of its own, a command is confined to the paths behind them. -/
theorem confined (script : Script) {f : Formatter} (short : f.command.length ≤ 5) :
    f.Confined script.host := by
  intro program args command paths env
  rw [command, List.length_cons] at short
  change ConfinedTo paths env.tree (script.run program (args ++ paths) env).2.tree
  unfold run
  split
  · have own : args.drop 4 = [] := List.drop_eq_nil_iff.mpr (by omega)
    have sub : (args ++ paths).drop 4 ⊆ paths := by
      rw [List.drop_append, own, List.nil_append]
      exact List.drop_subset _ _
    exact (foldl_appendTo_confined _ _ env.tree).mono sub
  · split <;> exact ConfinedTo.refl _ _

end AutoDoc.Script
