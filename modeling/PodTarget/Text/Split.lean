/-! Cutting a text at every occurrence of a separator, from the left and
without overlap, and putting the pieces together again. Joining the pieces
with another text replaces every occurrence. -/

namespace PodTarget.Text

/-- The text after `lead`, where the text starts with it. -/
def after? : List Char → List Char → Option (List Char)
  | [], s => some s
  | _ :: _, [] => none
  | a :: lead, c :: s => if a = c then after? lead s else none

theorem after?_eq_some_iff {lead s t : List Char} : after? lead s = some t ↔ s = lead ++ t := by
  induction lead generalizing s with
  | nil => simp [after?]
  | cons a lead ih =>
    cases s with
    | nil => simp [after?]
    | cons c s =>
      by_cases h : a = c
      · subst h; simp [after?, ih]
      · simp [after?, h, Ne.symm h]

theorem after?_append (lead t : List Char) : after? lead (lead ++ t) = some t :=
  after?_eq_some_iff.2 rfl

/-- What stands before and after the first `c`. -/
def cut? (c : Char) : List Char → Option (List Char × List Char)
  | [] => none
  | d :: s => if d = c then some ([], s) else (cut? c s).map fun p => (d :: p.1, p.2)

theorem cut?_eq_some_iff {c : Char} {s a b : List Char} :
    cut? c s = some (a, b) ↔ s = a ++ c :: b ∧ c ∉ a := by
  induction s generalizing a with
  | nil => simp [cut?]
  | cons d s ih =>
    rw [cut?]
    split
    case isTrue h =>
      subst h
      cases a with
      | nil => simp
      | cons e a =>
        simp only [Option.some.injEq, Prod.mk.injEq, reduceCtorEq, false_and, List.cons_append,
          List.cons.injEq, List.mem_cons, not_or, false_iff, not_and, Classical.not_not]
        rintro ⟨rfl, -⟩ h
        exact absurd rfl h
    case isFalse h =>
      cases a with
      | nil => simp [h]
      | cons e a =>
        simp only [Option.map_eq_some_iff, Prod.mk.injEq, List.cons.injEq, Prod.exists,
          List.cons_append, List.mem_cons, not_or]
        constructor
        · rintro ⟨a', b', hc, ⟨rfl, rfl⟩, rfl⟩
          obtain ⟨rfl, hn⟩ := ih.1 hc
          exact ⟨⟨rfl, rfl⟩, Ne.symm h, hn⟩
        · rintro ⟨⟨rfl, rfl⟩, -, hn⟩
          exact ⟨a, b, ih.2 ⟨rfl, hn⟩, ⟨rfl, rfl⟩, rfl⟩

/-- The pieces of a text, `skip` of whose first characters belong to an
occurrence that is already cut. -/
def pieces (sep : List Char) : Nat → List Char → List (List Char)
  | _, [] => [[]]
  | skip + 1, _ :: s => pieces sep skip s
  | 0, c :: s =>
    if (after? sep (c :: s)).isSome then [] :: pieces sep (sep.length - 1) s
    else (pieces sep 0 s).modifyHead (c :: ·)

def split (sep s : List Char) : List (List Char) := pieces sep 0 s

def join (sep : List Char) (parts : List (List Char)) : List Char := sep.intercalate parts

def replace (old new s : List Char) : List Char := join new (split old s)

theorem pieces_ne_nil (sep : List Char) : ∀ (skip : Nat) (s : List Char), pieces sep skip s ≠ []
  | _, [] => by simp [pieces]
  | skip + 1, c :: s => by rw [pieces]; exact pieces_ne_nil sep skip s
  | 0, c :: s => by
    rw [pieces]
    split
    · simp
    · cases h : pieces sep 0 s with
      | nil => exact absurd h (pieces_ne_nil sep 0 s)
      | cons p ps => simp

theorem split_ne_nil (sep s : List Char) : split sep s ≠ [] := pieces_ne_nil sep 0 s

/-- What separates the parts of a name: some text, never an empty one. -/
structure Separator where
  text : List Char
  ne_nil : text ≠ []
deriving DecidableEq

/-- Where no separator is given, names are separated by a slash. -/
def Separator.ofString (s : String) : Separator :=
  if h : s.toList = [] then ⟨['/'], by simp⟩ else ⟨s.toList, h⟩

end PodTarget.Text
