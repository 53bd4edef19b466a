import Mathlib.Data.List.Nodup
import PodTarget.Proofs.Emission

/-! What a choice says for each platform. The platforms with a branch of their
own are those whose value differs from the default, so reading the choice for a
platform gives back the value in effect there. -/

namespace PodTarget.Starlark

/-- What a node says for a platform. A choice says what stands in the branch for
the platform, or else in the default branch. -/
def Node.under? (p : Platform) : Node → Option Node
  | .select branches =>
    (branches.lookup (platformCondition p)).or (branches.lookup defaultCondition)
  | n => some n

/-- The node as a branch of a choice, which has to have a value. -/
def Node.orNone : Node → Node
  | .empty => .none
  | n => n

def Node.isChoice : Node → Bool
  | .select _ => true
  | _ => false

theorem under?_of_not_isChoice {n : Node} (h : n.isChoice = false) (p : Platform) :
    n.under? p = some n := by
  cases n with
  | select => simp [Node.isChoice] at h
  | _ => rfl

theorem platformCondition_injective : Function.Injective platformCondition := by
  intro p q h
  cases p <;> cases q <;> first | rfl | exact absurd h (by decide)

theorem platformCondition_ne_default (p : Platform) : platformCondition p ≠ defaultCondition := by
  cases p <;> decide

section Differing

variable {α : Type} [DecidableEq α]

/-- The platforms whose value differs from the default. -/
def differingPlatforms (v : PlatformValue α) : List Platform :=
  Platform.all.filter fun p => v.get p ≠ v.default

theorem mem_differingPlatforms {v : PlatformValue α} {p : Platform} :
    p ∈ differingPlatforms v ↔ v.get p ≠ v.default := by
  simp [differingPlatforms, Platform.mem_all]

theorem nodup_differingPlatforms (v : PlatformValue α) : (differingPlatforms v).Nodup :=
  List.Nodup.filter _ (by decide)

end Differing

variable {α : Type} [ToNode α]

theorem branch_eq (a : α) : branch a = (toNode a).orNone := by
  rw [branch]
  cases toNode a <;> rfl

/-- A choice with branches for the platforms listed. -/
def choiceFor (ps : List Platform) (v : PlatformValue α) : List (String × Node) :=
  ps.map (fun p => (platformCondition p, branch (v.get p))) ++
    [(defaultCondition, branch v.default)]

theorem lookup_platform_choiceFor (ps : List Platform) (v : PlatformValue α) (p : Platform) :
    (choiceFor ps v).lookup (platformCondition p) =
      if p ∈ ps then some (branch (v.get p)) else none := by
  have hdefault : (platformCondition p == defaultCondition) = false :=
    beq_eq_false_iff_ne.2 (platformCondition_ne_default p)
  induction ps with
  | nil => simp [choiceFor, List.lookup_cons, hdefault]
  | cons q ps ih =>
    rw [choiceFor, List.map_cons, List.cons_append, List.lookup_cons]
    by_cases hq : p = q
    · subst hq; simp
    · have hcondition : (platformCondition p == platformCondition q) = false :=
        beq_eq_false_iff_ne.2 fun h => hq (platformCondition_injective h)
      rw [hcondition]
      simpa [choiceFor, hq] using ih

theorem lookup_default_choiceFor (ps : List Platform) (v : PlatformValue α) :
    (choiceFor ps v).lookup defaultCondition = some (branch v.default) := by
  induction ps with
  | nil => simp [choiceFor]
  | cons q ps ih =>
    have hcondition : (defaultCondition == platformCondition q) = false :=
      beq_eq_false_iff_ne.2 (platformCondition_ne_default q).symm
    rw [choiceFor, List.map_cons, List.cons_append, List.lookup_cons, hcondition]
    exact ih

theorem map_fst_choiceFor (ps : List Platform) (v : PlatformValue α) :
    (choiceFor ps v).map (·.1) = ps.map platformCondition ++ [defaultCondition] := by
  simp [choiceFor]

theorem nodup_map_fst_choiceFor {ps : List Platform} (h : ps.Nodup) (v : PlatformValue α) :
    ((choiceFor ps v).map (·.1)).Nodup := by
  rw [map_fst_choiceFor]
  refine (h.map platformCondition_injective).append (List.nodup_singleton _) ?_
  rw [List.disjoint_singleton, List.mem_map]
  rintro ⟨p, -, hp⟩
  exact platformCondition_ne_default p hp

variable [DecidableEq α]

theorem toNode_eq_select {v : PlatformValue α} (h : ∃ p, v.get p ≠ v.default) :
    toNode v = .select (choiceFor (differingPlatforms v) v) := by
  rw [toNode_of_differing h, choice, differing_eq, List.map_map]
  rfl

theorem under?_choiceFor (v : PlatformValue α) (p : Platform) :
    (Node.select (choiceFor (differingPlatforms v) v)).under? p = some (branch (v.get p)) := by
  rw [Node.under?, lookup_platform_choiceFor, lookup_default_choiceFor]
  by_cases hp : v.get p = v.default
  · rw [if_neg (mt mem_differingPlatforms.1 (not_not.2 hp)), Option.none_or, hp]
  · rw [if_pos (mem_differingPlatforms.2 hp), Option.some_or]

/-- A value by platform is written so that reading it for a platform gives the
value in effect there, and as a choice only where a platform differs. -/
theorem under?_toNode (single : ∀ a : α, (toNode a).isChoice = false) (v : PlatformValue α) :
    (∀ p, (toNode v).under? p =
        some (if (toNode v).isChoice then (toNode (v.get p)).orNone else toNode (v.get p))) ∧
      (∀ branches, toNode v = .select branches →
        (branches.map (·.1)).Nodup ∧ (branches.map (·.1)).count defaultCondition = 1 ∧
          (branches.map (·.1)).getLast? = some defaultCondition ∧ ∃ p, v.get p ≠ v.default) ∧
      ((∀ p a, v.overrides.get p = some a → a = v.default) → (toNode v).isChoice = false) := by
  by_cases huniform : ∀ p, v.get p = v.default
  · rw [toNode_of_uniform huniform]
    refine ⟨fun p => ?_, fun branches hselect => ?_, fun _ => single _⟩
    · rw [under?_of_not_isChoice (single _), single, huniform p]
      rfl
    · have hsingle := single v.default
      rw [hselect] at hsingle
      exact absurd hsingle (by simp [Node.isChoice])
  · have hdiffers := not_forall.1 huniform
    rw [toNode_eq_select hdiffers]
    refine ⟨fun p => ?_, fun branches hselect => ?_, fun hequal => ?_⟩
    · rw [under?_choiceFor, branch_eq]
      rfl
    · obtain rfl := Node.select.inj hselect
      have hnodup := nodup_map_fst_choiceFor (nodup_differingPlatforms v) v
      refine ⟨hnodup, List.count_eq_one_of_mem hnodup ?_, ?_, hdiffers⟩
      · simp [map_fst_choiceFor]
      · rw [map_fst_choiceFor, List.getLast?_concat]
    · obtain ⟨p, hp⟩ := hdiffers
      refine absurd ?_ hp
      rw [PlatformValue.get]
      cases hown : v.overrides.get p with
      | none => rfl
      | some a => exact hequal p a hown

/-- A name for all platforms but one, which has none, beside one that has the
same name once more. -/
def mostlyNamed : PlatformValue (Option String) :=
  ((PlatformValue.uniform (some "Kit")).withOverride .osx none).withOverride .tvos (some "Kit")

theorem under?_mostlyNamed :
    (∀ a : Option String, (toNode a).isChoice = false) ∧
      (toNode mostlyNamed).under? .osx = some .none ∧
      (toNode mostlyNamed).under? .tvos = some (.str "Kit") := by
  have single : ∀ a : Option String, (toNode a).isChoice = false := by
    intro a
    cases a <;> rfl
  obtain ⟨hread, -, -⟩ := under?_toNode single mostlyNamed
  exact ⟨single, hread .osx, hread .tvos⟩

end PodTarget.Starlark
