import PodTarget.Text.Split

/-! Shell-style alternatives: a pattern with a group in braces stands for one
pattern per alternative. The group is what lies between the first opening
brace and the first closing brace after it, so a group inside a group is cut
short at its own closing brace. -/

namespace PodTarget.Glob

open Text

def group? (s : List Char) : Option (List Char × List Char × List Char) := do
  let (before, rest) ← cut? '{' s
  let (inside, tail) ← cut? '}' rest
  some (before, inside, tail)

def expandTimes : Nat → List Char → List (List Char)
  | 0, s => [s]
  | n + 1, s =>
    match group? s with
    | none => [s]
    | some (before, inside, tail) =>
      (split [','] inside).flatMap fun alt => expandTimes n (before ++ alt ++ tail)

/-- Opening up a group uses up an opening brace, so there are no more rounds
than opening braces. -/
def expand (s : List Char) : List (List Char) := expandTimes (s.count '{') s

def expandBraces (pattern : String) : List String := (expand pattern.toList).map .ofList

theorem group?_eq_some_iff {s a b c : List Char} :
    group? s = some (a, b, c) ↔ s = a ++ '{' :: (b ++ '}' :: c) ∧ '{' ∉ a ∧ '}' ∉ b := by
  simp only [group?, Option.bind_eq_bind, Option.bind_eq_some_iff, Prod.exists,
    cut?_eq_some_iff, Option.some.injEq, Prod.mk.injEq]
  constructor
  · rintro ⟨_, _, ⟨rfl, ha⟩, _, _, ⟨rfl, hb⟩, rfl, rfl, rfl⟩
    exact ⟨rfl, ha, hb⟩
  · rintro ⟨rfl, ha, hb⟩
    exact ⟨_, _, ⟨rfl, ha⟩, _, _, ⟨rfl, hb⟩, rfl, rfl, rfl⟩

end PodTarget.Glob
