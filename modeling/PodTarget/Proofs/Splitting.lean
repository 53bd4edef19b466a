import Mathlib.Data.List.Infix
import PodTarget.Text.Split

/-! Where a text is cut at a separator: the first piece ends at the first
occurrence, and what follows the occurrence is cut in the same way. An occurrence
that reaches into the separator after the first piece would come before it. -/

namespace PodTarget.Text

/-- The first occurrence of a text in another is after so many characters. -/
structure FirstAt (sep s : List Char) (n : Nat) : Prop where
  occurs : sep <+: s.drop n
  first : ∀ i < n, ¬sep <+: s.drop i

theorem isSome_after?_iff {lead s : List Char} : (after? lead s).isSome ↔ lead <+: s := by
  rw [Option.isSome_iff_exists]
  constructor
  · rintro ⟨t, ht⟩
    exact ⟨t, (after?_eq_some_iff.1 ht).symm⟩
  · rintro ⟨t, rfl⟩
    exact ⟨t, after?_append lead t⟩

theorem pieces_eq_split (sep : List Char) (skip : Nat) (s : List Char) :
    pieces sep skip s = split sep (s.drop skip) := by
  induction s generalizing skip with
  | nil => cases skip <;> rfl
  | cons c s ih =>
    cases skip with
    | zero => rfl
    | succ skip => rw [pieces, ih, List.drop_succ_cons]

variable {sep : List Char}

theorem split_cons_of_not_leads {c : Char} {s : List Char} (h : ¬sep <+: c :: s) :
    split sep (c :: s) = (split sep s).modifyHead (c :: ·) := by
  rw [split, pieces, if_neg (by rwa [isSome_after?_iff])]
  rfl

theorem split_append_self (hsep : sep ≠ []) (t : List Char) :
    split sep (sep ++ t) = [] :: split sep t := by
  obtain ⟨c, rest, rfl⟩ := List.exists_cons_of_ne_nil hsep
  have hc : (after? (c :: rest) (c :: (rest ++ t))).isSome := isSome_after?_iff.2 ⟨t, rfl⟩
  rw [List.cons_append, split, pieces, if_pos hc, pieces_eq_split]
  simp

/-- A text in front of the first occurrence is the first piece. -/
theorem split_append (hsep : sep ≠ []) {a : List Char} (t : List Char)
    (h : FirstAt sep (a ++ sep ++ t) a.length) :
    split sep (a ++ sep ++ t) = a :: split sep t := by
  induction a with
  | nil => exact split_append_self hsep t
  | cons c a ih =>
    have hc : ¬sep <+: c :: (a ++ sep ++ t) := h.first 0 (by simp)
    have ha : FirstAt sep (a ++ sep ++ t) a.length :=
      ⟨h.occurs, fun i hi => h.first (i + 1) (Nat.succ_lt_succ hi)⟩
    rw [List.cons_append, List.cons_append, split_cons_of_not_leads hc, ih ha]
    rfl

/-- A text without an occurrence is the only piece. -/
theorem split_of_not_occurs {s : List Char} (h : ¬sep <:+: s) : split sep s = [s] := by
  induction s with
  | nil => rfl
  | cons c s ih =>
    rw [split_cons_of_not_leads fun hc => h hc.isInfix,
      ih fun hs => h (hs.trans (List.suffix_cons c s).isInfix)]
    rfl

/-- If there is more than one piece, the separator follows the first one, and
there it occurs for the first time. -/
theorem exists_of_split_eq_cons (hsep : sep ≠ []) {s first : List Char} {rest : List (List Char)}
    (h : split sep s = first :: rest) (hrest : rest ≠ []) :
    ∃ t, s = first ++ sep ++ t ∧ rest = split sep t ∧ FirstAt sep s first.length := by
  induction s generalizing first with
  | nil =>
    obtain ⟨-, rfl⟩ := List.cons.inj h
    exact absurd rfl hrest
  | cons c s ih =>
    by_cases hc : sep <+: c :: s
    · obtain ⟨t, ht⟩ := hc
      rw [← ht, split_append_self hsep] at h
      obtain ⟨rfl, rfl⟩ := List.cons.inj h
      exact ⟨t, ht.symm, rfl, ⟨t, ht⟩, by simp⟩
    · rw [split_cons_of_not_leads hc] at h
      cases hs : split sep s with
      | nil => exact absurd hs (split_ne_nil sep s)
      | cons a as =>
        rw [hs, List.modifyHead_cons] at h
        obtain ⟨rfl, rfl⟩ := List.cons.inj h
        obtain ⟨t, rfl, hrest, hfirst⟩ := ih hs
        refine ⟨t, rfl, hrest, hfirst.occurs, fun i hi => ?_⟩
        cases i with
        | zero => exact hc
        | succ i => exact hfirst.first i (Nat.lt_of_succ_lt_succ hi)

/-- Whether an occurrence at the end of a text is the first one does not depend
on what follows. -/
theorem firstAt_append_iff {a : List Char} (t : List Char) :
    FirstAt sep (a ++ sep ++ t) a.length ↔ FirstAt sep (a ++ sep) a.length := by
  have leads (i : Nat) (hi : i ≤ a.length) :
      sep <+: (a ++ sep ++ t).drop i ↔ sep <+: (a ++ sep).drop i := by
    rw [List.drop_append_of_le_length (by simp; omega)]
    constructor
    · intro h
      exact List.prefix_of_prefix_length_le h (List.prefix_append _ t) (by simp; omega)
    · exact fun h => h.trans (List.prefix_append _ t)
  constructor
  · intro h
    refine ⟨(leads _ (Nat.le_refl _)).1 h.occurs, fun i hi hs => h.first i hi ?_⟩
    exact (leads i (Nat.le_of_lt hi)).2 hs
  · intro h
    refine ⟨(leads _ (Nat.le_refl _)).2 h.occurs, fun i hi hs => h.first i hi ?_⟩
    exact (leads i (Nat.le_of_lt hi)).1 hs

theorem sublist_of_mem_pieces {skip : Nat} {s part : List Char} (h : part ∈ pieces sep skip s) :
    part.Sublist s := by
  fun_induction pieces sep skip s generalizing part with
  | case1 skip => simp [List.mem_singleton.1 h]
  | case2 skip c s ih => exact (ih h).cons c
  | case3 c s hc ih =>
    rcases List.mem_cons.1 h with rfl | h
    · exact List.nil_sublist _
    · exact (ih h).cons c
  | case4 c s hc ih =>
    cases hp : pieces sep 0 s with
    | nil => exact absurd hp (pieces_ne_nil sep 0 s)
    | cons first rest =>
      rw [hp] at h ih
      rcases List.mem_cons.1 h with rfl | h
      · exact (ih List.mem_cons_self).cons_cons c
      · exact (ih (List.mem_cons_of_mem _ h)).cons c

theorem sublist_of_mem_split {s part : List Char} (h : part ∈ split sep s) : part.Sublist s :=
  sublist_of_mem_pieces h

theorem exists_firstAt {s : List Char} (h : sep <:+: s) :
    ∃ a t, s = a ++ sep ++ t ∧ FirstAt sep s a.length := by
  induction s with
  | nil =>
    rw [List.infix_nil.1 h]
    exact ⟨[], [], rfl, ⟨List.nil_prefix, by simp⟩⟩
  | cons c s ih =>
    by_cases hc : sep <+: c :: s
    · obtain ⟨t, ht⟩ := hc
      exact ⟨[], t, ht.symm, ⟨t, ht⟩, by simp⟩
    · obtain ⟨a, t, rfl, hfirst⟩ := ih ((List.infix_cons_iff.1 h).resolve_left hc)
      refine ⟨c :: a, t, rfl, hfirst.occurs, fun i hi => ?_⟩
      cases i with
      | zero => exact hc
      | succ i => exact hfirst.first i (Nat.lt_of_succ_lt_succ hi)

/-- The parts of a text between the separators, the first of which counts each time. -/
inductive CutInto (sep : List Char) : List Char → List (List Char) → Prop
  | whole {s : List Char} (h : ¬sep <:+: s) : CutInto sep s [s]
  | first {a t : List Char} {parts : List (List Char)}
      (h : FirstAt sep (a ++ sep ++ t) a.length) (ht : CutInto sep t parts) :
      CutInto sep (a ++ sep ++ t) (a :: parts)

theorem cutInto_split (hsep : sep ≠ []) (s : List Char) : CutInto sep s (split sep s) := by
  by_cases h : sep <:+: s
  · obtain ⟨a, t, hs, hfirst⟩ := exists_firstAt h
    have hlength : t.length < s.length := by
      have := List.length_pos_iff.2 hsep
      simp only [hs, List.length_append]
      omega
    rw [hs] at hfirst ⊢
    rw [split_append hsep t hfirst]
    exact .first hfirst (cutInto_split hsep t)
  · rw [split_of_not_occurs h]
    exact .whole h
termination_by s.length

theorem join_cons_of_ne_nil (new part : List Char) {parts : List (List Char)} (h : parts ≠ []) :
    join new (part :: parts) = part ++ new ++ join new parts := by
  obtain ⟨next, rest, rfl⟩ := List.exists_cons_of_ne_nil h
  rw [join, join, List.intercalate_cons_cons, List.append_assoc]

section Character

variable {c : Char}

/-- A character that does not occur in a text occurs for the first time behind it. -/
theorem firstAt_of_notMem {a : List Char} (t : List Char) (h : c ∉ a) :
    FirstAt [c] (a ++ [c] ++ t) a.length := by
  constructor
  · simp
  · intro i hi hc
    rw [List.append_assoc, List.drop_append_of_le_length (Nat.le_of_lt hi)] at hc
    cases hd : a.drop i with
    | nil => exact absurd (List.drop_eq_nil_iff.1 hd) (Nat.not_le.2 hi)
    | cons d rest =>
      rw [hd, List.cons_append, List.cons_prefix_cons] at hc
      have hmem : c ∈ a.drop i := by rw [hd, hc.1]; exact List.mem_cons_self
      exact h (List.mem_of_mem_drop hmem)

theorem split_append_of_notMem {a : List Char} (t : List Char) (h : c ∉ a) :
    split [c] (a ++ c :: t) = a :: split [c] t := by
  have hs := split_append (List.cons_ne_nil c []) t (firstAt_of_notMem t h)
  rwa [List.append_assoc, List.singleton_append] at hs

theorem split_of_notMem {s : List Char} (h : c ∉ s) : split [c] s = [s] :=
  split_of_not_occurs fun hs => h ((List.singleton_infix_iff c s).1 hs)

/-- A text is cut at each occurrence of a character alike. -/
theorem split_append_cons (a b : List Char) :
    split [c] (a ++ c :: b) = split [c] a ++ split [c] b := by
  induction a with
  | nil => exact split_append_of_notMem b List.not_mem_nil
  | cons d a ih =>
    by_cases hd : c = d
    · subst hd
      have hcut (t : List Char) : split [c] (c :: t) = [] :: split [c] t :=
        split_append_of_notMem t List.not_mem_nil
      rw [List.cons_append, hcut, hcut, ih, List.cons_append]
    · have hleads (t : List Char) : ¬[c] <+: d :: t := by simpa using hd
      obtain ⟨first, rest, ha⟩ := List.exists_cons_of_ne_nil (split_ne_nil [c] a)
      rw [List.cons_append, split_cons_of_not_leads (hleads _), ih,
        split_cons_of_not_leads (hleads _), ha]
      rfl

theorem notMem_of_mem_split {s part : List Char} (h : part ∈ split [c] s) : c ∉ part := by
  induction s generalizing part with
  | nil => simp [List.mem_singleton.1 h]
  | cons d s ih =>
    by_cases hd : c = d
    · subst hd
      rw [← List.nil_append (c :: s), split_append_of_notMem s List.not_mem_nil] at h
      rcases List.mem_cons.1 h with rfl | h
      · exact List.not_mem_nil
      · exact ih h
    · rw [split_cons_of_not_leads (by simpa using hd)] at h
      cases hs : split [c] s with
      | nil => exact absurd hs (split_ne_nil [c] s)
      | cons first rest =>
        rw [hs] at h ih
        rcases List.mem_cons.1 h with rfl | h
        · exact List.not_mem_cons_of_ne_of_not_mem hd (ih List.mem_cons_self)
        · exact ih (List.mem_cons_of_mem _ h)

theorem join_cons_cons (part next : List Char) (rest : List (List Char)) :
    join [c] (part :: next :: rest) = part ++ c :: join [c] (next :: rest) := by
  simp [join, List.intercalate_cons_cons]

theorem notMem_join {d : Char} {parts : List (List Char)} (hd : d ≠ c)
    (h : ∀ part ∈ parts, d ∉ part) : d ∉ join [c] parts := by
  induction parts with
  | nil => exact List.not_mem_nil
  | cons part parts ih =>
    have hpart := h part List.mem_cons_self
    have hparts := ih fun p hp => h p (List.mem_cons_of_mem _ hp)
    cases parts with
    | nil => simpa [join] using hpart
    | cons next rest =>
      rw [join_cons_cons, List.mem_append, List.mem_cons]
      simp only [hpart, hd, hparts, or_self, not_false_eq_true]

/-- Parts put together with a character that none of them has come apart again. -/
theorem split_join {parts : List (List Char)} (hne : parts ≠ []) (h : ∀ part ∈ parts, c ∉ part) :
    split [c] (join [c] parts) = parts := by
  induction parts with
  | nil => exact absurd rfl hne
  | cons part parts ih =>
    have hpart := h part List.mem_cons_self
    cases parts with
    | nil => simpa [join] using split_of_notMem hpart
    | cons next rest =>
      rw [join_cons_cons, split_append_of_notMem _ hpart,
        ih (List.cons_ne_nil _ _) fun p hp => h p (List.mem_cons_of_mem _ hp)]

end Character

end PodTarget.Text
