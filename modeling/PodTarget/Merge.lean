import PodTarget.Collections

/-! How a value combines with a later declaration of the same attribute:
sets and maps by union, lists by concatenation, truth values by disjunction;
a later optional value replaces the earlier one. -/

namespace PodTarget

class Merge (α : Type) where
  merge : α → α → α

export Merge (merge)

instance {α : Type} [Ord α] [Std.TransOrd α] : Merge (Std.ExtTreeSet α) := ⟨(· ∪ ·)⟩

theorem mem_merge {α : Type} [Ord α] [Std.TransOrd α] {a b : Std.ExtTreeSet α} {x : α} :
    x ∈ merge a b ↔ x ∈ a ∨ x ∈ b := Std.ExtTreeSet.mem_union_iff

instance {α : Type} : Merge (List α) := ⟨(· ++ ·)⟩

instance {α : Type} : Merge (Option α) := ⟨fun a b => b.or a⟩

instance : Merge Bool := ⟨(· || ·)⟩

section Map

variable {κ α : Type} [Ord κ] [Std.TransOrd κ]

/-- A map with one more declaration of the value at `k`. -/
def declare [Merge α] (m : Std.ExtTreeMap κ α) (k : κ) (v : α) : Std.ExtTreeMap κ α :=
  m.alter k fun old => some (old.elim v (merge · v))

instance [Merge α] : Merge (Std.ExtTreeMap κ α) := ⟨fun a b => b.foldl declare a⟩

/-- Two values of which each may be missing; where both are there they merge. -/
def mergeAt [Merge α] : Option α → Option α → Option α
  | a, none => a
  | none, b => b
  | some a, some b => some (merge a b)

theorem getElem?_declare [Std.LawfulEqOrd κ] [DecidableEq κ] [Merge α] (m : Std.ExtTreeMap κ α)
    (k k' : κ) (v : α) :
    (declare m k v)[k']? = if k = k' then mergeAt m[k']? (some v) else m[k']? := by
  rw [declare, Std.ExtTreeMap.getElem?_alter]
  by_cases h : k = k'
  · subst h
    cases m[k]? <;> simp [mergeAt]
  · simp [h]

/-- Maps merge key by key. -/
theorem getElem?_merge [Std.LawfulEqOrd κ] [DecidableEq κ] [Merge α] (a b : Std.ExtTreeMap κ α)
    (k : κ) : (merge a b)[k]? = mergeAt a[k]? b[k]? := by
  show (b.foldl declare a)[k]? = _
  rw [Std.ExtTreeMap.foldl_eq_foldl_toList]
  have at_key := view_foldl_toList b k (·[k]?) (fun v old => mergeAt old (some v))
    (fun m e => declare m e.1 e.2) (fun m v => by simp [getElem?_declare])
    (fun m e he => by simp [getElem?_declare, he]) a
  rw [at_key]
  cases b[k]? with
  | none => simp [mergeAt]
  | some v => rfl

end Map

end PodTarget
