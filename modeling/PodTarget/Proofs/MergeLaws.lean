import PodTarget.PlatformValue

/-! The laws of merging. It is associative, and where it forgets order and
repetition it makes a least upper bound: a merged value absorbs all its parts,
and whatever absorbs them absorbs the merged value. So merging some values in
any order, each any number of times, gives the same. -/

namespace PodTarget

class AssocMerge (α : Type) [Merge α] : Prop where
  merge_assoc : ∀ a b c : α, merge (merge a b) c = merge a (merge b c)

/-- Order and repetition do not matter. -/
class JoinMerge (α : Type) [Merge α] : Prop extends AssocMerge α where
  merge_comm : ∀ a b : α, merge a b = merge b a
  merge_self : ∀ a : α, merge a a = a

export AssocMerge (merge_assoc)
export JoinMerge (merge_comm merge_self)

section Set

variable {α : Type} [Ord α] [Std.TransOrd α] [Std.LawfulEqOrd α]

instance : JoinMerge (Std.ExtTreeSet α) where
  merge_assoc a b c := Std.ExtTreeSet.ext_mem fun x => by simp only [mem_merge, or_assoc]
  merge_comm a b := Std.ExtTreeSet.ext_mem fun x => by simp only [mem_merge, or_comm]
  merge_self a := Std.ExtTreeSet.ext_mem fun x => by simp only [mem_merge, or_self]

end Set

section Map

variable {κ α : Type} [Merge α]

theorem mergeAt_assoc [AssocMerge α] (a b c : Option α) :
    mergeAt (mergeAt a b) c = mergeAt a (mergeAt b c) := by
  cases a <;> cases b <;> cases c <;> simp [mergeAt, merge_assoc]

theorem mergeAt_comm [JoinMerge α] (a b : Option α) : mergeAt a b = mergeAt b a := by
  cases a with
  | none => cases b <;> rfl
  | some a =>
    cases b with
    | none => rfl
    | some b => exact congrArg some (merge_comm a b)

theorem mergeAt_self [JoinMerge α] (a : Option α) : mergeAt a a = a := by
  cases a with
  | none => rfl
  | some a => exact congrArg some (merge_self a)

variable [Ord κ] [Std.TransOrd κ] [Std.LawfulEqOrd κ] [DecidableEq κ]

instance [AssocMerge α] : AssocMerge (Std.ExtTreeMap κ α) where
  merge_assoc a b c := Std.ExtTreeMap.ext_getElem? fun k => by
    simp only [getElem?_merge, mergeAt_assoc]

instance [JoinMerge α] : JoinMerge (Std.ExtTreeMap κ α) where
  merge_comm a b := Std.ExtTreeMap.ext_getElem? fun k => by
    rw [getElem?_merge, getElem?_merge, mergeAt_comm]
  merge_self a := Std.ExtTreeMap.ext_getElem? fun k => by rw [getElem?_merge, mergeAt_self]

end Map

section Lookup

variable {α : Type} [Merge α]

theorem getD_merge {β : Type} (a b : StringMap (List β)) (k : String) :
    ((merge a b)[k]?).getD [] = (a[k]?).getD [] ++ (b[k]?).getD [] := by
  rw [getElem?_merge]
  cases a[k]? <;> cases b[k]? <;> simp [mergeAt, merge]

theorem mem_getD_merge {β : Type} (a b : StringMap (List β)) (k : String) (x : β) :
    x ∈ ((merge a b)[k]?).getD [] ↔ x ∈ (a[k]?).getD [] ∨ x ∈ (b[k]?).getD [] := by
  rw [getD_merge, List.mem_append]

theorem isSome_getElem?_merge (a b : StringMap α) (k : String) :
    (merge a b)[k]?.isSome ↔ a[k]?.isSome ∨ b[k]?.isSome := by
  rw [getElem?_merge]
  cases a[k]? <;> cases b[k]? <;> simp [mergeAt]

end Lookup

namespace PlatformValue

variable {α : Type} [Merge α]

instance [AssocMerge α] : AssocMerge (PlatformValue α) where
  merge_assoc a b c := by
    refine ext_get ?_ (fun p => ?_) fun p => ?_
    · simp only [default_merge, merge_assoc]
    · simp only [isSome_overrides_merge, Bool.or_assoc]
    · simp only [get_merge, merge_assoc]

instance [JoinMerge α] : JoinMerge (PlatformValue α) where
  merge_comm a b := by
    refine ext_get ?_ (fun p => ?_) fun p => ?_
    · rw [default_merge, default_merge, merge_comm]
    · rw [isSome_overrides_merge, isSome_overrides_merge, Bool.or_comm]
    · rw [get_merge, get_merge, merge_comm]
  merge_self a := by
    refine ext_get ?_ (fun p => ?_) fun p => ?_
    · rw [default_merge, merge_self]
    · rw [isSome_overrides_merge, Bool.or_self]
    · rw [get_merge, merge_self]

end PlatformValue

section Absorbs

variable {α : Type} [Merge α] [JoinMerge α]

/-- Merging the second value in adds nothing to the first. -/
def Absorbs (a b : α) : Prop := merge a b = a

theorem absorbs_merge_left (a b : α) : Absorbs (merge a b) a := by
  rw [Absorbs, merge_comm a b, merge_assoc, merge_self]

theorem absorbs_merge_right (a b : α) : Absorbs (merge a b) b := by
  rw [Absorbs, merge_assoc, merge_self]

theorem Absorbs.trans {a b c : α} (h : Absorbs a b) (h' : Absorbs b c) : Absorbs a c := by
  calc
    merge a c = merge (merge a b) c := by rw [h]
    _ = merge a (merge b c) := merge_assoc ..
    _ = a := by rw [h', h]

theorem Absorbs.of_parts {a b c : α} (h : Absorbs a b) (h' : Absorbs a c) :
    Absorbs a (merge b c) := by
  rw [Absorbs, ← merge_assoc, h, h']

theorem Absorbs.antisymm {a b : α} (h : Absorbs a b) (h' : Absorbs b a) : a = b := by
  rw [← h, merge_comm, h']

theorem absorbs_foldl_merge (l : List α) (a : α) :
    ∀ b ∈ a :: l, Absorbs (l.foldl merge a) b := by
  induction l generalizing a with
  | nil =>
    intro b hb
    rw [List.mem_singleton.1 hb]
    exact merge_self a
  | cons c l ih =>
    intro b hb
    rw [List.foldl_cons]
    have hac := ih (merge a c) _ List.mem_cons_self
    rcases List.mem_cons.1 hb with rfl | hb
    · exact hac.trans (absorbs_merge_left ..)
    · rcases List.mem_cons.1 hb with rfl | hb
      · exact hac.trans (absorbs_merge_right ..)
      · exact ih _ _ (List.mem_cons_of_mem _ hb)

theorem foldl_merge_absorbed {l : List α} {a b : α} (h : ∀ c ∈ a :: l, Absorbs b c) :
    Absorbs b (l.foldl merge a) := by
  induction l generalizing a with
  | nil => exact h a List.mem_cons_self
  | cons c l ih =>
    refine ih fun d hd => ?_
    rcases List.mem_cons.1 hd with rfl | hd
    · exact (h a (by simp)).of_parts (h c (by simp))
    · exact h d (by simp [hd])

/-- The same values, in another order or repeated, merge to the same. -/
theorem foldl_merge_congr {l l' : List α} (h : ∀ b, b ∈ l ↔ b ∈ l') (a : α) :
    l.foldl merge a = l'.foldl merge a := by
  have hc : ∀ b, b ∈ a :: l ↔ b ∈ a :: l' := fun b => by simp [h]
  apply Absorbs.antisymm
  · exact foldl_merge_absorbed fun b hb => absorbs_foldl_merge l a b ((hc b).2 hb)
  · exact foldl_merge_absorbed fun b hb => absorbs_foldl_merge l' a b ((hc b).1 hb)

end Absorbs

end PodTarget
