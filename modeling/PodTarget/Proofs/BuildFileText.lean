import Mathlib.Data.List.Perm.Subperm
import PodTarget.Proofs.Presence
import PodTarget.Proofs.SelfDelimiting

/-! The text of a build file tells what its target says. Sets are written as
lists, so the order and the repetition of their items are lost; nothing else is,
whatever characters stand in names, paths and flags. -/

namespace PodTarget.FrameworkTarget

open Starlark

variable (t : FrameworkTarget)

/-- The attributes that are written, with the sets in them put as lists. -/
def writtenNormal : List (String × Node) := t.written.map fun a => (a.1, a.2.normal)

theorem normal_toNode :
    (toNode t).normal = .call rule (t.writtenNormal.map fun a => .named a.1 a.2) := by
  rw [toNode_eq, Node.normal, normalArgs_eq_map, writtenNormal, List.map_map, List.map_map]
  refine congrArg (Node.call rule) (List.map_congr_left fun a _ => ?_)
  rw [Function.comp_apply, Arg.normal]
  rfl

theorem blank_notMem_attributeName : ∀ name ∈ attributeNames, ' ' ∉ name.toList := by decide

theorem value_of_mem_writtenNormal :
    ∀ a ∈ t.writtenNormal, ' ' ∉ a.1.toList ∧ Value false a.2 := by
  intro a ha
  obtain ⟨w, hw, rfl⟩ := List.mem_map.1 ha
  have hname : w.1 ∈ attributeNames := t.sublist_written.subset (List.mem_map_of_mem hw)
  exact ⟨blank_notMem_attributeName _ hname, (t.value_of_mem_written w hw).normal⟩

/-- The identifier of the bundle and the visibility are always written. -/
theorem one_lt_length_writtenNormal : 1 < t.writtenNormal.length := by
  have always {name : String} (h : (name, True) ∈ t.presence) : name ∈ t.written.map (·.1) :=
    (t.mem_written_iff h).2 trivial
  have hbundle : "bundle_id" ∈ t.written.map (·.1) := always (by simp [presence])
  have hvisibility : "visibility" ∈ t.written.map (·.1) := always (by simp [presence])
  have hsub : ["bundle_id", "visibility"] ⊆ t.written.map (·.1) :=
    List.cons_subset.2 ⟨hbundle, List.cons_subset.2 ⟨hvisibility, List.nil_subset _⟩⟩
  have hlength := (List.subperm_of_subset (by decide) hsub).length_le
  rw [List.length_map] at hlength
  rw [writtenNormal, List.length_map]
  exact hlength

theorem text_toNode : (toNode t).text 0 =
    rule.toList ++ block '(' ')' (t.writtenNormal.map fun a => (Arg.named a.1 a.2).text) 0 := by
  have hnamed : (t.writtenNormal.map fun a => Arg.named a.1 a.2).any Arg.isNamed = true := by
    have hpos : 0 < t.writtenNormal.length := Nat.zero_lt_of_lt t.one_lt_length_writtenNormal
    obtain ⟨a, ha⟩ := List.exists_mem_of_length_pos hpos
    exact List.any_eq_true.2 ⟨_, List.mem_map_of_mem ha, rfl⟩
  rw [← Node.text_normal, normal_toNode, Node.text, hnamed, argTexts_eq_map, List.map_map,
    List.length_map]
  simp only [t.one_lt_length_writtenNormal, decide_true, Bool.and_self, parenthesized]
  rfl

theorem render_buildFile : t.buildFile.render =
    .ofList (loadNode.text 0 ++ '\n' :: '\n' :: ((toNode t).text 0 ++ ['\n'])) := by
  simp [buildFile, BuildFile.render]

/-- Two targets have the same text just where they are the same up to the order
and the repetition of what is in sets. -/
theorem render_buildFile_eq_iff (a b : FrameworkTarget) :
    a.buildFile.render = b.buildFile.render ↔ (toNode a).normal = (toNode b).normal := by
  rw [render_buildFile, render_buildFile]
  constructor
  · intro h
    have htext := List.append_cancel_left (String.ofList_injective h)
    simp only [List.cons.injEq, true_and, text_toNode, List.append_assoc] at htext
    obtain ⟨hwritten, -⟩ := block_append_inj (by decide)
      (fun x hx => delimited_named (a.value_of_mem_writtenNormal x hx).1
        (a.value_of_mem_writtenNormal x hx).2 1)
      b.value_of_mem_writtenNormal (List.append_cancel_left htext)
    rw [normal_toNode, normal_toNode, hwritten]
  · intro h
    rw [← Node.text_normal (toNode a), ← Node.text_normal (toNode b), h]

end PodTarget.FrameworkTarget
