import Mathlib.Data.List.GetD
import Mathlib.Tactic.SplitIfs
import PodTarget.Proofs.Delimiters

/-! What is found in a literal. Each escape is made of a few letters, of digits and of
characters that stand for themselves, and no control character stands for itself. So a
literal has neither a line break nor any other control character, and where it ends can be
told without looking at what follows. -/

namespace PodTarget.Starlark

open Text

theorem hexDigit_mem (n : Nat) : hexDigit n ∈ hexDigits := by
  rcases Nat.lt_or_ge n hexDigits.length with h | h
  · rw [hexDigit, List.getD_eq_getElem _ _ h]
    exact List.getElem_mem h
  · rw [hexDigit, List.getD_eq_default _ _ h]
    decide

/-- The characters of an escape that are no digits. -/
def escapeLetters : List Char := '"' :: '\\' :: "ntrx".toList

section Characters

variable {c d : Char}

theorem mem_escape (h : d ∈ escape c) :
    d ∈ escapeLetters ∨ d ∈ hexDigits ∨ d = c ∧ isControl c = false := by
  have letters {s : List Char} (hs : ∀ x ∈ s, x ∈ escapeLetters) (hd : d ∈ s) :
      d ∈ escapeLetters := hs d hd
  unfold escape at h
  split_ifs at h with _ _ _ _ _ hcontrol
  iterate 5 exact Or.inl (letters (by simp [escapeLetters]) h)
  · rcases List.mem_append.1 (show d ∈ ['\\', 'x'] ++ [_, _] from h) with h | h
    · exact Or.inl (letters (by simp [escapeLetters]) h)
    · obtain rfl | rfl := (List.mem_cons.1 h).imp_right List.mem_singleton.1
      · exact Or.inr (Or.inl (hexDigit_mem _))
      · exact Or.inr (Or.inl (hexDigit_mem _))
  · exact Or.inr (Or.inr ⟨List.mem_singleton.1 h, by simpa using hcontrol⟩)

/-- What an escape has in it, if not the character itself. -/
theorem notMem_escape (hne : d ≠ c) (hd : d ∉ escapeLetters) (hhex : d ∉ hexDigits) :
    d ∉ escape c := by
  intro h
  obtain h | h | ⟨rfl, -⟩ := mem_escape h
  · exact hd h
  · exact hhex h
  · exact hne rfl

theorem isControl_of_mem_quote {s : List Char} (h : c ∈ quote s) : isControl c = false := by
  -- Run through the list, as a bounded statement may be decided by all characters there are.
  have hfixed : (escapeLetters ++ hexDigits).all (!isControl ·) = true := by decide
  simp only [List.all_eq_true, List.mem_append, Bool.not_eq_true'] at hfixed
  rw [quote, List.mem_cons, List.mem_append, List.mem_flatMap, List.mem_singleton] at h
  obtain rfl | ⟨a, -, ha⟩ | rfl := h
  · exact hfixed _ (Or.inl List.mem_cons_self)
  · obtain h | h | ⟨rfl, h⟩ := mem_escape ha
    · exact hfixed c (Or.inl h)
    · exact hfixed c (Or.inr h)
    · exact h
  · exact hfixed _ (Or.inl List.mem_cons_self)

theorem newline_notMem_quote (s : List Char) : '\n' ∉ quote s :=
  fun h => absurd (isControl_of_mem_quote h) (by decide)

end Characters

/-- Where a literal ends, and what it stands for, does not depend on the text behind it, and
there is no control character in it. -/
theorem quote_delimits_itself (s t u v : List Char) :
    (quote s ++ u = quote t ++ v ↔ s = t ∧ u = v) ∧
      ∀ c ∈ quote s, ¬(c.toNat < 0x20 ∨ c.toNat = 0x7F) := by
  constructor
  · constructor
    · exact quote_append_inj
    · rintro ⟨rfl, rfl⟩
      rfl
  · intro c hc
    simpa [isControl] using isControl_of_mem_quote hc

/-- Two characters that are escaped, and the letters by which they are. -/
theorem quote_delimits_itself_letters :
    quote ['\n', '\x7f'] = "\"\\n\\x7f\"".toList ∧
    quote "\\n\\x7f".toList = "\"\\\\n\\\\x7f\"".toList ∧
    (∀ u v, quote ['\n', '\x7f'] ++ u ≠ quote "\\n\\x7f".toList ++ v) ∧
    'x' ∈ quote ['\n', '\x7f'] ∧ ¬('x'.toNat < 0x20 ∨ 'x'.toNat = 0x7F) := by
  have hmem : 'x' ∈ quote ['\n', '\x7f'] := by decide
  refine ⟨by decide, by decide, fun u v h => ?_, hmem, ?_⟩
  · obtain ⟨heq, -⟩ := (quote_delimits_itself _ _ u v).1.1 h
    exact absurd heq (by decide)
  · exact (quote_delimits_itself _ [] [] []).2 'x' hmem

end PodTarget.Starlark
