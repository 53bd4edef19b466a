import PodTarget.Proofs.NormalForm
import PodTarget.Starlark.Emit

/-! The expressions that the values of attributes are made of. No empty node
stands in them at any depth, and they stay expressions when the sets in them are
put as lists. -/

namespace PodTarget.Starlark

/-- The nodes right below a node. -/
def Node.children : Node → List Node
  | .list items => items
  | .set items => items
  | .dict entries => entries.flatMap fun e => [e.1, e.2]
  | .call _ args => args.map Arg.value
  | .expr lhs _ rhs => [lhs, rhs]
  | .select branches => branches.map (·.2)
  | _ => []

/-- A node is found in another one, at whatever depth. -/
inductive Node.Occurs (n : Node) : Node → Prop
  | here : Occurs n n
  | inside {m c : Node} (hc : c ∈ m.children) (h : Occurs n c) : Occurs n m

/-- What values are made of, where `sets` tells whether sets may be among it. The
only calls are globs. -/
inductive Expression (sets : Bool) : Node → Prop
  | none : Expression sets .none
  | bool (b : Bool) : Expression sets (.bool b)
  | str (s : String) : Expression sets (.str s)
  | list {items : List Node} (h : ∀ n ∈ items, Expression sets n) : Expression sets (.list items)
  | set {items : List Node} (hs : sets = true) (h : ∀ n ∈ items, Expression sets n) :
      Expression sets (.set items)
  | dict {entries : List (Node × Node)} (hk : ∀ e ∈ entries, Expression sets e.1)
      (hv : ∀ e ∈ entries, Expression sets e.2) : Expression sets (.dict entries)
  | glob (p : FilePattern) : Expression sets (.call "glob" (globArgs p))
  | select {branches : List (String × Node)} (h : ∀ b ∈ branches, Expression sets b.2) :
      Expression sets (.select branches)

/-- An expression or the sum of two. -/
inductive Value (sets : Bool) : Node → Prop
  | single {n : Node} (h : Expression sets n) : Value sets n
  | sum {lhs rhs : Node} (hl : Expression sets lhs) (hr : Expression sets rhs) :
      Value sets (.add lhs rhs)

section

variable {sets : Bool} {n : Node}

theorem expression_strings (l : List String) : Expression sets (.strings l) := by
  refine .list fun n hn => ?_
  obtain ⟨s, -, rfl⟩ := List.mem_map.1 hn
  exact .str s

theorem Expression.ne_empty (h : Expression sets n) : n ≠ .empty := by
  rintro rfl
  cases h

theorem Expression.children (h : Expression sets n) : ∀ c ∈ n.children, Expression sets c := by
  intro c hc
  cases h with
  | none | bool | str => simp [Node.children] at hc
  | list h => exact h c hc
  | set _ h => exact h c hc
  | dict hk hv =>
    obtain ⟨e, he, hc⟩ := List.mem_flatMap.1 hc
    rcases List.mem_cons.1 hc with rfl | hc
    · exact hk e he
    · rw [List.mem_singleton.1 hc]
      exact hv e he
  | glob p =>
    obtain ⟨a, ha, rfl⟩ := List.mem_map.1 hc
    rcases List.mem_cons.1 ha with rfl | ha
    · exact expression_strings _
    · split at ha
      · exact absurd ha List.not_mem_nil
      · rw [List.mem_singleton.1 ha]
        exact expression_strings _
  | select h =>
    obtain ⟨b, hb, rfl⟩ := List.mem_map.1 hc
    exact h b hb

theorem Expression.not_occurs_empty (h : Expression sets n) : ¬Node.Occurs .empty n := by
  intro ho
  induction ho with
  | here => exact h.ne_empty rfl
  | inside hc _ ih => exact ih (h.children _ hc)

theorem Value.not_occurs_empty (h : Value sets n) : ¬Node.Occurs .empty n := by
  cases h with
  | single h => exact h.not_occurs_empty
  | sum hl hr =>
    intro ho
    cases ho with
    | inside hc ho =>
      rcases List.mem_cons.1 hc with rfl | hc
      · exact hl.not_occurs_empty ho
      · rw [List.mem_singleton.1 hc] at ho
        exact hr.not_occurs_empty ho

theorem normal_strings (l : List String) : (Node.strings l).normal = .strings l := by
  rw [Node.strings, Node.normal, normalAll_eq_map, List.map_map]
  refine congrArg Node.list (List.map_congr_left fun s _ => ?_)
  rw [Function.comp_apply, Node.normal]

theorem normalArgs_globArgs (p : FilePattern) : normalArgs (globArgs p) = globArgs p := by
  rw [globArgs, normalArgs, Arg.normal, normal_strings]
  split
  · rw [normalArgs]
  · rw [normalArgs, Arg.normal, normal_strings, normalArgs]

/-- The normal form of an expression is one without sets. -/
theorem Expression.normal (h : Expression sets n) : Expression false n.normal := by
  have all {items : List Node} (ih : ∀ n ∈ items, Expression false n.normal) :
      ∀ m ∈ normalAll items, Expression false m := by
    intro m hm
    rw [normalAll_eq_map] at hm
    obtain ⟨n, hn, rfl⟩ := List.mem_map.1 hm
    exact ih n hn
  induction h with
  | none => rw [Node.normal]; exact .none
  | bool b => rw [Node.normal]; exact .bool b
  | str s => rw [Node.normal]; exact .str s
  | list _ ih => rw [Node.normal]; exact .list (all ih)
  | set _ _ ih =>
    rw [Node.normal]
    exact .list fun m hm => all ih m (mem_of_mem_sortedBy hm)
  | dict _ _ ihk ihv =>
    rw [Node.normal, normalEntries_eq_map]
    refine .dict (fun e he => ?_) fun e he => ?_
    · obtain ⟨e', he', rfl⟩ := List.mem_map.1 he
      exact ihk e' he'
    · obtain ⟨e', he', rfl⟩ := List.mem_map.1 he
      exact ihv e' he'
  | glob p => rw [Node.normal, normalArgs_globArgs]; exact .glob p
  | select _ ih =>
    rw [Node.normal, normalBranches_eq_map]
    refine .select fun b hb => ?_
    obtain ⟨b', hb', rfl⟩ := List.mem_map.1 hb
    exact ih b' hb'

theorem Value.normal (h : Value sets n) : Value false n.normal := by
  cases h with
  | single h => exact .single h.normal
  | sum hl hr => rw [Node.add, Node.normal]; exact .sum hl.normal hr.normal

end

end PodTarget.Starlark
