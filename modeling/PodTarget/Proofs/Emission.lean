import Mathlib.Logic.Basic
import PodTarget.Proofs.Expressions
import PodTarget.Vendored.Slice

/-! What values become. One that says nothing becomes the empty node and any
other an expression: a map leaves out what has no value, a glob has a pattern,
and a branch of a choice has at least the value none. A value by platform is
told from its default and from what is in effect for each platform. -/

namespace PodTarget.Starlark

/-- The platforms that differ from the default are told by what is in effect. -/
theorem differing_eq {α : Type} [DecidableEq α] (v : PlatformValue α) : differing v =
    (Platform.all.filter fun p => v.get p ≠ v.default).map fun p => (p, v.get p) := by
  rw [differing, PerPlatform.entries]
  induction Platform.all with
  | nil => rfl
  | cons p ps ih =>
    rw [List.filterMap_cons, List.filter_cons]
    cases hp : v.overrides.get p with
    | none =>
      have hget : v.get p = v.default := by simp [PlatformValue.get, hp]
      simpa [hget] using ih
    | some a =>
      have hget : v.get p = a := by simp [PlatformValue.get, hp]
      by_cases ha : a = v.default
      · simpa [hget, ha] using ih
      · simpa [hget, ha] using ih

theorem differing_eq_nil_iff {α : Type} [DecidableEq α] {v : PlatformValue α} :
    differing v = [] ↔ ∀ p, v.get p = v.default := by
  simp [differing_eq, Platform.mem_all]

/-- Values that become expressions unless they say nothing. -/
class Expressible (α : Type) [ToNode α] : Prop where
  expression_of_ne : ∀ a : α, toNode a ≠ .empty → Expression true (toNode a)

/-- Values that always become expressions. -/
class Expressed (α : Type) [ToNode α] : Prop where
  expression : ∀ a : α, Expression true (toNode a)

export Expressible (expression_of_ne)
export Expressed (expression)

instance : Expressed String := ⟨.str⟩

instance : Expressed Bool := ⟨.bool⟩

variable {α : Type} [ToNode α]

instance [Expressed α] : Expressible α := ⟨fun a _ => expression a⟩

instance [Expressible α] : Expressible (Option α) :=
  ⟨fun a ha => by
    cases a with
    | none => exact absurd rfl ha
    | some a => exact expression_of_ne a ha⟩

instance [Expressed α] : Expressed (List α) :=
  ⟨fun l => .list fun n hn => by
    obtain ⟨a, -, rfl⟩ := List.mem_map.1 hn
    exact expression a⟩

instance [Expressed α] [Ord α] [Std.TransOrd α] : Expressed (Std.ExtTreeSet α) :=
  ⟨fun s => .set rfl fun n hn => by
    obtain ⟨a, -, rfl⟩ := List.mem_map.1 hn
    exact expression a⟩

/-- A dictionary has an entry for each value that becomes a node. -/
theorem dictOf_eq (valued : α → Bool) (hv : ∀ a, valued a = true ↔ toNode a ≠ .empty)
    (entries : List (String × α)) : dictOf entries =
      .dict ((entries.filter (valued ·.2)).map fun e => (.str e.1, toNode e.2)) := by
  rw [dictOf]
  congr 1
  induction entries with
  | nil => rfl
  | cons e entries ih =>
    obtain ⟨k, v⟩ := e
    rw [List.filterMap_cons, List.filter_cons, ih]
    by_cases hval : toNode v = .empty
    · rw [if_neg fun h => (hv v).1 h hval]
      simp only [hval]
    · rw [if_pos ((hv v).2 hval), List.map_cons]
      dsimp only
      split
      · rename_i hnone
        split at hnone
        · contradiction
        · simp at hnone
      · rename_i hsome
        split at hsome
        · simp at hsome
        · rw [Option.some.inj hsome]

theorem expression_dictOf [Expressible α] (entries : List (String × α)) :
    Expression true (dictOf entries) := by
  classical
  rw [dictOf_eq (fun a => decide (toNode a ≠ .empty)) fun a => decide_eq_true_iff]
  refine .dict (fun e he => ?_) fun e he => ?_
  · obtain ⟨e', -, rfl⟩ := List.mem_map.1 he
    exact .str e'.1
  · obtain ⟨e', he', rfl⟩ := List.mem_map.1 he
    exact expression_of_ne e'.2 (by simpa using (List.mem_filter.1 he').2)

instance [Expressible α] : Expressed (StringMap α) := ⟨fun m => expression_dictOf m.toList⟩

instance [Expressible α] : Expressed (PerPlatform (Option α)) := ⟨fun _ => expression_dictOf _⟩

theorem pattern_ne_empty_iff {p : FilePattern} : toNode p ≠ .empty ↔ p.isEmpty = false := by
  cases h : p.isEmpty with
  | true => simp [toNode, h]
  | false => simp [toNode, h]

instance : Expressible FilePattern :=
  ⟨fun p hp => by
    have h := pattern_ne_empty_iff.1 hp
    simpa [toNode, h] using Expression.glob p⟩

theorem expression_branch [Expressible α] (a : α) : Expression true (branch a) := by
  rw [branch]
  split
  · exact .none
  · rename_i h
    exact expression_of_ne a h

theorem expression_choice [Expressible α] (d : α) (own : List (Platform × α)) :
    Expression true (choice d own) := by
  refine .select fun b hb => ?_
  rcases List.mem_append.1 hb with hb | hb
  · obtain ⟨⟨p, a⟩, -, rfl⟩ := List.mem_map.1 hb
    exact expression_branch a
  · rw [List.mem_singleton.1 hb]
    exact expression_branch d

section ByPlatform

variable [DecidableEq α]

theorem toNode_of_uniform {v : PlatformValue α} (h : ∀ p, v.get p = v.default) :
    toNode v = toNode v.default := by
  simp only [toNode, differing_eq_nil_iff.2 h]

theorem toNode_of_differing {v : PlatformValue α} (h : ∃ p, v.get p ≠ v.default) :
    toNode v = choice v.default (differing v) := by
  cases hdiff : differing v with
  | nil =>
    obtain ⟨p, hp⟩ := h
    exact absurd (differing_eq_nil_iff.1 hdiff p) hp
  | cons e own => simp only [toNode, hdiff]

theorem toNode_congr {v w : PlatformValue α} (hd : v.default = w.default)
    (hg : ∀ p, v.get p = w.get p) : (toNode v : Node) = toNode w := by
  have hdiff : differing v = differing w := by
    simp only [differing_eq, hd, hg]
  simp only [toNode, hdiff, hd]

instance [Expressible α] : Expressible (PlatformValue α) :=
  ⟨fun v hv => by
    by_cases h : ∀ p, v.get p = v.default
    · rw [toNode_of_uniform h] at hv ⊢
      exact expression_of_ne _ hv
    · rw [toNode_of_differing (not_forall.1 h)]
      exact expression_choice ..⟩

end ByPlatform

theorem expression_slice (s : Slice) : Expression true (toNode s) := by
  have build : Expression true (.dict
      [(.str "linkage", .str s.linkage.name), (.str "packaging", .str s.packaging.name)]) :=
    .dict (by simp [Expression.str]) (by simp [Expression.str])
  refine .dict ?_ ?_
  · simp [Expression.str]
  · simp [Expression.str, expression, build]

instance : Expressed Slice := ⟨expression_slice⟩

instance : Expressed XcFramework :=
  ⟨fun x => .dict (by simp [Expression.str]) (by simp [Expression.str, expression])⟩

end PodTarget.Starlark
