/-! The white space of Unicode, and the words between it: the maximal runs of other
characters. -/

namespace PodTarget.Text

/-- The code points with the property White_Space. -/
def blanks : List Nat :=
  [0x09, 0x0A, 0x0B, 0x0C, 0x0D, 0x20, 0x85, 0xA0, 0x1680, 0x2000, 0x2001, 0x2002, 0x2003,
   0x2004, 0x2005, 0x2006, 0x2007, 0x2008, 0x2009, 0x200A, 0x2028, 0x2029, 0x202F, 0x205F,
   0x3000]

def isBlank (c : Char) : Bool := blanks.contains c.toNat

/-- A text without the white space at its two ends. -/
def trim (s : List Char) : List Char :=
  (((s.dropWhile isBlank).reverse).dropWhile isBlank).reverse

def words (s : List Char) : List (List Char) :=
  (s.splitOnP isBlank).filter (· ≠ [])

/-- Words in their order, with white space between any two of them and around them. -/
inductive Spaced : List (List Char) → List Char → Prop
  | nil : Spaced [] []
  | blank {ws : List (List Char)} {c : Char} {s : List Char} (hc : isBlank c = true)
      (h : Spaced ws s) : Spaced ws (c :: s)
  | word {ws : List (List Char)} {w s : List Char} (hw : w ≠ [])
      (hplain : ∀ c ∈ w, isBlank c = false) (hend : ∀ c ∈ s.head?, isBlank c = true)
      (h : Spaced ws s) : Spaced (w :: ws) (w ++ s)

theorem words_cons_of_blank {c : Char} (hc : isBlank c = true) (s : List Char) :
    words (c :: s) = words s := by
  rw [words, List.splitOnP_cons_eq_if_modifyHead, if_pos hc, List.filter_cons_of_neg (by simp)]
  rfl

theorem words_append_of_word {w s : List Char} (hw : w ≠ []) (hplain : ∀ c ∈ w, isBlank c = false)
    (hend : ∀ c ∈ s.head?, isBlank c = true) : words (w ++ s) = w :: words s := by
  cases s with
  | nil => simp [words, List.splitOnP_eq_singleton hplain, hw]
  | cons c s =>
    have hc : isBlank c = true := hend c rfl
    rw [words_cons_of_blank hc, words, List.splitOnP_append_cons _ _ hc,
      List.splitOnP_eq_singleton hplain, List.filter_append]
    simp [words, hw]

theorem Spaced.words_eq {ws : List (List Char)} {s : List Char} (h : Spaced ws s) :
    words s = ws := by
  induction h with
  | nil => rfl
  | blank hc _ ih => rw [words_cons_of_blank hc, ih]
  | word hw hplain hend _ ih => rw [words_append_of_word hw hplain hend, ih]

/-- One more character in front is a blank, makes the first word longer or is a word
of its own. -/
theorem Spaced.exists_cons {ws : List (List Char)} {s : List Char} (h : Spaced ws s) (c : Char) :
    ∃ ws', Spaced ws' (c :: s) := by
  cases hc : isBlank c with
  | true => exact ⟨ws, .blank hc h⟩
  | false =>
    cases h with
    | nil => exact ⟨[[c]], .word (by simp) (by simpa using hc) nofun .nil⟩
    | blank hd h => exact ⟨_, .word (w := [c]) (by simp) (by simpa using hc) (by simpa) (.blank hd h)⟩
    | @word ws w s hw hplain hend h =>
      exact ⟨(c :: w) :: ws, .word (w := c :: w) (by simp) (by simpa [hc] using hplain) hend h⟩

theorem exists_spaced (s : List Char) : ∃ ws, Spaced ws s := by
  induction s with
  | nil => exact ⟨[], .nil⟩
  | cons c s ih =>
    obtain ⟨ws, h⟩ := ih
    exact h.exists_cons c

/-- The words of a text are the maximal runs of characters that are not white space. -/
theorem words_eq_iff {s : List Char} {ws : List (List Char)} : words s = ws ↔ Spaced ws s := by
  constructor
  · rintro rfl
    obtain ⟨ws, h⟩ := exists_spaced s
    rwa [h.words_eq]
  · exact Spaced.words_eq

theorem Spaced.append {vs ws : List (List Char)} {s t : List Char} {c : Char} (hs : Spaced vs s)
    (hc : isBlank c = true) (ht : Spaced ws t) : Spaced (vs ++ ws) (s ++ c :: t) := by
  induction hs with
  | nil => exact .blank hc ht
  | blank hd _ ih => exact .blank hd ih
  | @word vs w s hw hplain hend _ ih =>
    rw [List.append_assoc]
    refine .word hw hplain (fun d hd => ?_) ih
    cases s with
    | nil => simpa [← Option.some.inj hd] using hc
    | cons e s => exact hend d hd

theorem words_append {c : Char} (hc : isBlank c = true) (s t : List Char) :
    words (s ++ c :: t) = words s ++ words t :=
  ((words_eq_iff.1 rfl).append hc (words_eq_iff.1 rfl)).words_eq

end PodTarget.Text
