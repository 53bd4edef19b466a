import Mathlib.Logic.Basic
import PodTarget.Glob.Pattern
import PodTarget.Proofs.MergeLaws

/-! The laws of merging at every type at which values are merged: sets, lists,
options, truth values and file patterns, and what maps and platform values build
from them at any depth. Each law passes from the values of a map or of the
platforms to the whole, so each is an induction on how the type is built. -/

namespace PodTarget

section Laws

variable {α : Type}

instance : AssocMerge (List α) where
  merge_assoc a b c := List.append_assoc a b c

instance : AssocMerge (Option α) where
  merge_assoc a b c := (Option.or_assoc : (c.or b).or a = c.or (b.or a)).symm

instance : JoinMerge Bool where
  merge_assoc := Bool.or_assoc
  merge_comm := Bool.or_comm
  merge_self := Bool.or_self

instance : JoinMerge FilePattern where
  merge_assoc a b c :=
    congrArg₂ FilePattern.mk (merge_assoc a.incl b.incl c.incl) (merge_assoc a.excl b.excl c.excl)
  merge_comm a b := congrArg₂ FilePattern.mk (merge_comm a.incl b.incl) (merge_comm a.excl b.excl)
  merge_self a := congrArg₂ FilePattern.mk (merge_self a.incl) (merge_self a.excl)

/-- Merging with the value changes nothing, whichever is declared later. -/
structure Neutral [Merge α] (e : α) : Prop where
  merge_left : ∀ a, merge e a = a
  merge_right : ∀ a, merge a e = a

theorem neutral_set [Ord α] [Std.TransOrd α] [Std.LawfulEqOrd α] :
    Neutral (∅ : Std.ExtTreeSet α) where
  merge_left a := Std.ExtTreeSet.ext_mem fun x => by simp [mem_merge]
  merge_right a := Std.ExtTreeSet.ext_mem fun x => by simp [mem_merge]

theorem neutral_list : Neutral ([] : List α) where
  merge_left := List.nil_append
  merge_right := List.append_nil

theorem neutral_option : Neutral (none : Option α) where
  merge_left _ := Option.or_none
  merge_right _ := Option.none_or

theorem neutral_false : Neutral false where
  merge_left := Bool.false_or
  merge_right := Bool.or_false

theorem neutral_pattern : Neutral FilePattern.empty where
  merge_left _ := congrArg₂ FilePattern.mk (neutral_set.merge_left _) (neutral_set.merge_left _)
  merge_right _ := congrArg₂ FilePattern.mk (neutral_set.merge_right _) (neutral_set.merge_right _)

theorem neutral_map {κ : Type} [Ord κ] [Std.TransOrd κ] [Std.LawfulEqOrd κ] [DecidableEq κ]
    [Merge α] : Neutral (∅ : Std.ExtTreeMap κ α) where
  merge_left a := Std.ExtTreeMap.ext_getElem? fun k => by
    rw [getElem?_merge, Std.ExtTreeMap.getElem?_empty]
    cases a[k]? <;> rfl
  merge_right a := Std.ExtTreeMap.ext_getElem? fun k => by
    rw [getElem?_merge, Std.ExtTreeMap.getElem?_empty, mergeAt]

theorem Neutral.uniform [Merge α] {e : α} (h : Neutral e) :
    Neutral (PlatformValue.uniform e) where
  merge_left a := by
    refine PlatformValue.ext_get ?_ (fun p => ?_) fun p => ?_
    · exact h.merge_left a.default
    · simp [PlatformValue.isSome_overrides_merge, PlatformValue.uniform]
    · rw [PlatformValue.get_merge, PlatformValue.get_uniform, h.merge_left]
  merge_right a := by
    refine PlatformValue.ext_get ?_ (fun p => ?_) fun p => ?_
    · exact h.merge_right a.default
    · simp [PlatformValue.isSome_overrides_merge, PlatformValue.uniform]
    · rw [PlatformValue.get_merge, PlatformValue.get_uniform, h.merge_right]

end Laws

/-- How a type at which values are merged is built. -/
inductive MergeType : Type 1
  | set (α : Type) [Ord α] [Std.TransOrd α] [Std.LawfulEqOrd α]
  | list (α : Type)
  | option (α : Type)
  | bool
  | pattern
  | map (κ : Type) [Ord κ] [Std.TransOrd κ] [Std.LawfulEqOrd κ] (values : MergeType)
  | perPlatform (values : MergeType)

namespace MergeType

def Carrier : MergeType → Type
  | set α => Std.ExtTreeSet α
  | list α => List α
  | option α => Option α
  | bool => Bool
  | pattern => FilePattern
  | map κ t => Std.ExtTreeMap κ t.Carrier
  | perPlatform t => PlatformValue t.Carrier

instance instMerge : (t : MergeType) → Merge t.Carrier
  | set α => inferInstanceAs (Merge (Std.ExtTreeSet α))
  | list α => inferInstanceAs (Merge (List α))
  | option α => inferInstanceAs (Merge (Option α))
  | bool => inferInstanceAs (Merge Bool)
  | pattern => inferInstanceAs (Merge FilePattern)
  | map κ t =>
    letI := instMerge t
    inferInstanceAs (Merge (Std.ExtTreeMap κ t.Carrier))
  | perPlatform t =>
    letI := instMerge t
    inferInstanceAs (Merge (PlatformValue t.Carrier))

/-- The value of a type that declares nothing. -/
def nothing : (t : MergeType) → t.Carrier
  | set α => (∅ : Std.ExtTreeSet α compare)
  | list α => ([] : List α)
  | option α => (none : Option α)
  | bool => false
  | pattern => FilePattern.empty
  | map κ t => (∅ : Std.ExtTreeMap κ t.Carrier compare)
  | perPlatform t => PlatformValue.uniform t.nothing

/-- Neither lists nor options are part of the type. -/
def Orderless : MergeType → Prop
  | list _ | option _ => False
  | set _ | bool | pattern => True
  | map _ t | perPlatform t => t.Orderless

instance instAssocMerge (t : MergeType) : AssocMerge t.Carrier := by
  induction t with
  | set α => exact inferInstanceAs (AssocMerge (Std.ExtTreeSet α))
  | list α => exact inferInstanceAs (AssocMerge (List α))
  | option α => exact inferInstanceAs (AssocMerge (Option α))
  | bool => exact inferInstanceAs (AssocMerge Bool)
  | pattern => exact inferInstanceAs (AssocMerge FilePattern)
  | map κ t ih =>
    let := Classical.decEq κ
    exact inferInstanceAs (AssocMerge (Std.ExtTreeMap κ t.Carrier))
  | perPlatform t ih => exact inferInstanceAs (AssocMerge (PlatformValue t.Carrier))

theorem Orderless.joinMerge {t : MergeType} (h : t.Orderless) : JoinMerge t.Carrier := by
  induction t with
  | set α => exact inferInstanceAs (JoinMerge (Std.ExtTreeSet α))
  | list α | option α => exact absurd h id
  | bool => exact inferInstanceAs (JoinMerge Bool)
  | pattern => exact inferInstanceAs (JoinMerge FilePattern)
  | map κ t ih =>
    let := Classical.decEq κ
    have := ih h
    exact inferInstanceAs (JoinMerge (Std.ExtTreeMap κ t.Carrier))
  | perPlatform t ih =>
    have := ih h
    exact inferInstanceAs (JoinMerge (PlatformValue t.Carrier))

theorem neutral_nothing (t : MergeType) : Neutral t.nothing := by
  induction t with
  | set α => exact neutral_set (α := α)
  | list α => exact neutral_list (α := α)
  | option α => exact neutral_option (α := α)
  | bool => exact neutral_false
  | pattern => exact neutral_pattern
  | map κ t ih =>
    let := Classical.decEq κ
    exact neutral_map (κ := κ) (α := t.Carrier)
  | perPlatform t ih => exact ih.uniform

/-- Merging is associative and has a neutral value at every type, and where no
part of the type is ordered, order and repetition do not matter. -/
theorem merge_laws (t : MergeType) :
    (∀ a b c : t.Carrier, merge (merge a b) c = merge a (merge b c)) ∧
      (∀ a : t.Carrier, merge t.nothing a = a ∧ merge a t.nothing = a) ∧
      (t.Orderless →
        (∀ a b : t.Carrier, merge a b = merge b a) ∧ ∀ a : t.Carrier, merge a a = a) := by
  refine ⟨merge_assoc, fun a => ?_, fun h => ?_⟩
  · have hn := t.neutral_nothing
    exact ⟨hn.merge_left a, hn.merge_right a⟩
  · have := h.joinMerge
    exact ⟨merge_comm, merge_self⟩

/-- The globs of a bundle, some of them for the desktop only. -/
def desktopBundle (glob own : String) : StringMap (PlatformValue StringSet) :=
  .ofList [("Assets", (PlatformValue.uniform {glob}).withOverride .osx {own})]

theorem merge_laws_bundles :
    let t := MergeType.map String (.perPlatform (.set String))
    let a : t.Carrier := desktopBundle "a.png" "a.icns"
    let b : t.Carrier := desktopBundle "b.png" "a.icns"
    t.Orderless ∧ merge a b = merge b a ∧ merge a a = a ∧ merge (merge a b) a = merge a b ∧
      merge a b ≠ a := by
  intro t a b
  obtain ⟨hassoc, -, hjoin⟩ := merge_laws t
  obtain ⟨hcomm, hself⟩ := hjoin trivial
  refine ⟨trivial, hcomm a b, hself a, ?_, ?_⟩
  · rw [hassoc, hcomm b a, ← hassoc, hself]
  · show ¬(merge (desktopBundle "a.png" "a.icns") (desktopBundle "b.png" "a.icns") : StringMap _) =
      desktopBundle "a.png" "a.icns"
    decide +kernel

end MergeType

end PodTarget
