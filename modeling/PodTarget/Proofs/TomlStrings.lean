import Mathlib.Data.List.Basic
import PodTarget.Collections
import PodTarget.Proofs.Splitting
import PodTarget.Toml.Quoted

/-! Strings and keys of TOML are read back as they were written. A quote ends a
long string only where three stand together, of up to five the last three, so what
carries the proofs is that never more than two quotes of the string itself are in
front of the closing ones. -/

namespace PodTarget.Toml

open Text

/-- The number of quotes in front of a text. -/
def leading (q : Char) (s : List Char) : Nat := (s.takeWhile (· = q)).length

theorem leading_cons_self (q : Char) (s : List Char) : leading q (q :: s) = leading q s + 1 := by
  simp [leading]

theorem leading_cons_of_ne {q c : Char} (h : c ≠ q) (s : List Char) : leading q (c :: s) = 0 := by
  simp [leading, h]

theorem leading_replicate_append (q : Char) (n : Nat) (s : List Char) :
    leading q (List.replicate n q ++ s) = n + leading q s := by
  induction n with
  | zero => simp
  | succ n ih => rw [List.replicate_succ, List.cons_append, leading_cons_self, ih]; omega

theorem leading_eq_zero {q : Char} {s : List Char} (h : s.head? ≠ some q) : leading q s = 0 := by
  cases s with
  | nil => rfl
  | cons c s => exact leading_cons_of_ne (fun hc => h (by rw [hc, List.head?_cons])) s

theorem exists_replicate_append (q : Char) (s : List Char) :
    ∃ t, s = List.replicate (leading q s) q ++ t ∧ t.head? ≠ some q := by
  induction s with
  | nil => exact ⟨[], rfl, nofun⟩
  | cons c s ih =>
    by_cases h : c = q
    · subst h
      obtain ⟨t, ht, hhead⟩ := ih
      refine ⟨t, ?_, hhead⟩
      rw [leading_cons_self, List.replicate_succ, List.cons_append, ← ht]
    · refine ⟨c :: s, ?_, fun hc => h (Option.some.inj hc)⟩
      rw [leading_cons_of_ne h, List.replicate_zero, List.nil_append]

theorem closing?_eq_none {q : Char} {s : List Char} (h : leading q s ≤ 2) :
    closing? q s = none := by
  rw [leading] at h
  exact if_neg (by omega)

theorem closing?_replicate_append {q : Char} {n : Nat} (hn : n ≤ 2) {rest : List Char}
    (hrest : rest.head? ≠ some q) :
    closing? q (List.replicate (n + 3) q ++ rest) = some (List.replicate n q, rest) := by
  have hrun : leading q (List.replicate (n + 3) q ++ rest) = n + 3 := by
    rw [leading_replicate_append, leading_eq_zero hrest, Nat.add_zero]
  have hmin : min 5 (n + 3) = n + 3 := by omega
  rw [leading] at hrun
  simp only [closing?, hrun, hmin]
  rw [if_pos (by omega), Nat.add_sub_cancel, List.drop_left' (by simp)]

namespace Delimiter

variable {d : Delimiter} {rest : List Char}

theorem text_of_long (h : d.long = true) : d.text = List.replicate 3 d.quote := by
  simp [text, h]

theorem text_of_not_long (h : d.long = false) : d.text = [d.quote] := by
  simp [text, h]

/-- The end of a long string, with the quotes of the string right in front of it. -/
theorem body?_quotes (hlong : d.long = true) {n : Nat} (hn : n ≤ 2)
    (hrest : rest.head? ≠ some d.quote) :
    d.body? false (List.replicate n d.quote ++ (d.text ++ rest)) =
      some (List.replicate n d.quote, rest) := by
  have hclose := closing?_replicate_append hn hrest
  rw [text_of_long hlong, ← List.append_assoc, List.replicate_append_replicate]
  rw [List.replicate_succ, List.cons_append] at hclose ⊢
  rw [body?.eq_def]
  dsimp only
  rw [if_pos rfl, if_pos hlong, hclose]

theorem body?_text (hrest : rest.head? ≠ some d.quote) :
    d.body? false (d.text ++ rest) = some ([], rest) := by
  cases hlong : d.long with
  | false =>
    rw [text_of_not_long hlong, List.singleton_append, body?.eq_def]
    simp [hlong]
  | true => exact body?_quotes hlong (Nat.zero_le 2) hrest

/-- A quote that belongs to a long string, where at most one more follows. -/
theorem body?_quote (hlong : d.long = true) {s : List Char} (hs : leading d.quote s ≤ 1)
    (hrest : rest.head? ≠ some d.quote) :
    d.body? false (d.quote :: (s ++ (d.text ++ rest))) =
      (d.body? false (s ++ (d.text ++ rest))).map (prepend d.quote) := by
  obtain ⟨t, ht, hhead⟩ := exists_replicate_append d.quote s
  cases t with
  | nil =>
    -- nothing but quotes up to the end, and reading may start at any of them
    rw [List.append_nil] at ht
    rw [ht, body?_quotes hlong (by omega) hrest, ← List.cons_append, ← List.replicate_succ,
      body?_quotes hlong (by omega) hrest]
    rfl
  | cons c t =>
    have hc : c ≠ d.quote := fun hc => hhead (by rw [hc, List.head?_cons])
    have hrun : leading d.quote (d.quote :: (s ++ (d.text ++ rest))) ≤ 2 := by
      rw [leading_cons_self, ht, List.append_assoc, leading_replicate_append, List.cons_append,
        leading_cons_of_ne hc]
      omega
    rw [body?.eq_def]
    dsimp only
    rw [if_pos rfl, if_pos hlong, closing?_eq_none hrun]

theorem body?_plain {c : Char} (hquote : c ≠ d.quote) (hescape : c = '\\' → d.escapes = false)
    (hplain : isPlain c = true) (s : List Char) :
    d.body? false (c :: s) = (d.body? false s).map (prepend c) := by
  have hline : c ≠ '\n' := by rintro rfl; exact absurd hplain (by decide)
  have hreturn : c ≠ '\r' := by rintro rfl; exact absurd hplain (by decide)
  have hno : ¬(c = '\\' ∧ d.escapes = true) := fun h => by simp [hescape h.1] at h
  rw [body?.eq_def]
  dsimp only
  rw [if_neg hquote, if_neg hno, if_neg (by simp), if_neg hline, if_neg hreturn,
    if_pos hplain]

theorem body?_newline (hlong : d.long = true) (hquote : d.quote ≠ '\n') (s : List Char) :
    d.body? false ('\n' :: s) = (d.body? false s).map (prepend '\n') := by
  rw [body?.eq_def]
  dsimp only
  rw [if_neg (Ne.symm hquote), if_neg (by simp), if_neg (by simp), if_pos rfl, if_pos hlong]

/-! ### Escapes -/

theorem endsLine_cons {c : Char} (hgap : isGap c = false) (hline : c ≠ '\n')
    (hreturn : c ≠ '\r') (s : List Char) : endsLine (c :: s) = false := by
  rw [endsLine, List.dropWhile_cons_of_neg (by simp [hgap])]
  split
  · next h => exact absurd (List.head_eq_of_cons_eq h) hline
  · next h => exact absurd (List.head_eq_of_cons_eq h) hreturn
  · rfl

theorem slash_ne_quote (hd : d.escapes = true) : '\\' ≠ d.quote := by
  rw [escapes, decide_eq_true_eq] at hd
  rw [hd]
  decide

theorem body?_letter (hd : d.escapes = true) {c e : Char} (h : (c, e) ∈ shortEscapes)
    (s : List Char) :
    d.body? false ('\\' :: e :: s) = (d.body? false s).map (prepend c) := by
  have hletter : isGap e = false ∧ e ≠ '\n' ∧ e ≠ '\r' ∧ e ≠ 'u' ∧ e ≠ 'U' ∧
      unescape? e = some c := by
    have : ∀ p ∈ shortEscapes, isGap p.2 = false ∧ p.2 ≠ '\n' ∧ p.2 ≠ '\r' ∧ p.2 ≠ 'u' ∧
        p.2 ≠ 'U' ∧ unescape? p.2 = some p.1 := by decide
    exact this (c, e) h
  obtain ⟨hgap, hline, hreturn, hu, hU, hread⟩ := hletter
  rw [body?.eq_def]
  dsimp only
  rw [if_neg (slash_ne_quote hd), if_pos ⟨rfl, hd⟩, if_neg (by simp [endsLine_cons hgap hline hreturn])]
  split
  · next h => exact absurd (List.head_eq_of_cons_eq h) hu
  · next h => exact absurd (List.head_eq_of_cons_eq h) hU
  · next h =>
    obtain ⟨rfl, rfl⟩ := List.cons.inj h
    rw [hread, Option.bind_some]
  · next h => nomatch h

theorem body?_number (hd : d.escapes = true) {c e f g h : Char}
    (hc : scalar? [e, f, g, h] = some c) (s : List Char) :
    d.body? false ('\\' :: 'u' :: e :: f :: g :: h :: s) = (d.body? false s).map (prepend c) := by
  have hends : endsLine ('u' :: e :: f :: g :: h :: s) = false :=
    endsLine_cons (by decide) (by decide) (by decide) _
  rw [body?.eq_def]
  dsimp only
  rw [if_neg (slash_ne_quote hd), if_pos ⟨rfl, hd⟩, if_neg (by simp [hends])]
  show (scalar? [e, f, g, h]).bind _ = _
  rw [hc, Option.bind_some]

end Delimiter

theorem hexValue?_toUpper_hexDigit {n : Nat} (h : n < 16) :
    hexValue? (hexDigit n).toUpper = some n := by
  have : ∀ m : Fin 16, hexValue? (hexDigit m).toUpper = some m.val := by decide
  exact this ⟨n, h⟩

theorem scalar?_toUpper_hexDigit {c : Char} (h : c.toNat < 256) :
    scalar? ['0', '0', (hexDigit (c.toNat / 16)).toUpper, (hexDigit (c.toNat % 16)).toUpper] =
      some c := by
  have hhigh := hexValue?_toUpper_hexDigit (n := c.toNat / 16) (by omega)
  have hlow := hexValue?_toUpper_hexDigit (n := c.toNat % 16) (by omega)
  have hzero : hexValue? '0' = some 0 := by decide
  have hnumber : 16 * (c.toNat / 16) + c.toNat % 16 = c.toNat := Nat.div_add_mod ..
  have hvalid : c.toNat.isValidChar := c.valid
  simp [scalar?, hexNumber?, hhigh, hlow, hzero, hnumber, hvalid]

theorem isPlain_of_le {c : Char} (h : 256 ≤ c.toNat) : isPlain c = true := by
  have : 0x20 ≤ c.toNat ∧ c.toNat ≠ 0x7F := by omega
  simp [isPlain, this]

namespace Delimiter

variable {d : Delimiter} {rest : List Char}

/-- Characters that have no letter and are no controls are never escaped. -/
theorem body?_escape (hd : d.escapes = true) {c : Char}
    (hc : isPlain c = false ∨ (shortEscapes.lookup c).isSome) (s : List Char) :
    d.body? false (escape c ++ s) = (d.body? false s).map (prepend c) := by
  rw [escape]
  split
  · next e he => exact body?_letter hd (mem_of_lookup_eq_some he) s
  · next hnone =>
    refine body?_number hd (scalar?_toUpper_hexDigit ?_) s
    rcases hc with hc | hc
    · by_contra hlarge
      rw [isPlain_of_le (by omega)] at hc
      nomatch hc
    · rw [hnone] at hc
      nomatch hc

theorem escape_eq_cons (c : Char) : ∃ s, escape c = '\\' :: s := by
  rw [escape]
  split
  · exact ⟨_, rfl⟩
  · exact ⟨_, rfl⟩

/-- Never more than two quotes stand together, those in front counted. -/
theorem leading_escapeAll (s : List Char) {run : Nat} (hrun : run ≤ 2) :
    run + leading '"' (escapeAll true run s) ≤ 2 := by
  induction s generalizing run with
  | nil => exact hrun
  | cons c s ih =>
    obtain ⟨t, ht⟩ := escape_eq_cons c
    have hnone (c : Char) (hc : c ≠ '"') (t : List Char) : run + leading '"' (c :: t) ≤ 2 := by
      rw [leading_cons_of_ne hc]
      exact hrun
    simp only [escapeAll, ht, if_true]
    by_cases hc : c = '"'
    · rw [if_pos hc]
      split
      · next hlt =>
        have hnext : run + 1 + leading '"' (escapeAll true (run + 1) s) ≤ 2 := ih hlt
        rw [hc, leading_cons_self]
        omega
      · exact hnone _ (by decide) _
    · rw [if_neg hc]
      split
      · exact hnone _ hc _
      · split
        · exact hnone _ (by decide) _
        · exact hnone _ hc _

/-- Between double quotes every string is read as it is written. -/
theorem body?_escapeAll (hquote : d.quote = '"') (hrest : rest.head? ≠ some d.quote)
    (s : List Char) {run : Nat} (hrun : run ≤ 2) :
    d.body? false (escapeAll d.long run s ++ (d.text ++ rest)) = some (s, rest) := by
  have hd : d.escapes = true := by simp [escapes, hquote]
  induction s generalizing run with
  | nil => exact body?_text hrest
  | cons c s ih =>
    have hprepend (run : Nat) (h : run ≤ 2) :
        (d.body? false (escapeAll d.long run s ++ (d.text ++ rest))).map (prepend c) =
          some (c :: s, rest) := by
      rw [ih h]
      rfl
    rw [escapeAll]
    by_cases hc : c = '"'
    · subst hc
      rw [if_pos rfl]
      by_cases hlt : run < if d.long = true then 2 else 0
      · have hlong : d.long = true := by
          by_contra hshort
          simp [hshort] at hlt
        rw [if_pos hlt]
        rw [if_pos hlong] at hlt
        have hlead : run + 1 + leading '"' (escapeAll true (run + 1) s) ≤ 2 :=
          leading_escapeAll s hlt
        rw [← hlong, ← hquote] at hlead
        rw [List.cons_append, ← hquote, body?_quote hlong (by omega) hrest, hquote,
          hprepend _ hlt]
      · rw [if_neg hlt, List.append_assoc, body?_escape hd (Or.inr (by decide)),
          hprepend _ (Nat.zero_le 2)]
    · rw [if_neg hc]
      split
      · next hline =>
        obtain ⟨rfl, hlong⟩ := hline
        rw [List.cons_append, body?_newline hlong (by rw [hquote]; decide),
          hprepend _ (Nat.zero_le 2)]
      · split
        · next hcode =>
          have hescaped : isPlain c = false ∨ (shortEscapes.lookup c).isSome := by
            rcases hcode with rfl | rfl | hcode
            · exact Or.inr (by decide)
            · exact Or.inr (by decide)
            · exact Or.inl (by simpa using hcode)
          rw [List.append_assoc, body?_escape hd hescaped, hprepend _ (Nat.zero_le 2)]
        · next hcode =>
          simp only [not_or, Bool.not_eq_true, Bool.not_eq_false'] at hcode
          obtain ⟨hslash, -, hplain⟩ := hcode
          rw [List.cons_append, body?_plain (by rwa [hquote]) (fun h => absurd h hslash) hplain,
            hprepend _ (Nat.zero_le 2)]

/-! ### Strings between delimiters -/

theorem leading_le_longestRun (q : Char) (n : Nat) (s : List Char) :
    n + leading q s ≤ longestRun q n s := by
  induction s generalizing n with
  | nil => exact Nat.le_refl n
  | cons c s ih =>
    rw [longestRun]
    split
    · next hc =>
      have hnext := ih (n + 1)
      rw [hc, leading_cons_self]
      omega
    · next hc =>
      rw [leading_cons_of_ne hc]
      omega

/-- Between single quotes a string stands as it is. -/
theorem body?_raw (hquote : d.quote = '\'') (hrest : rest.head? ≠ some d.quote) (s : List Char)
    (hcode : s.any isCode = false) {n : Nat}
    (hs : if d.long then longestRun '\'' n s ≤ 2 else '\'' ∉ s ∧ '\n' ∉ s) :
    d.body? false (s ++ (d.text ++ rest)) = some (s, rest) := by
  have hd : d.escapes = false := by simp [escapes, hquote]
  induction s generalizing n with
  | nil => exact body?_text hrest
  | cons c s ih =>
    rw [List.any_cons, Bool.or_eq_false_iff] at hcode
    have hplain (hline : c ≠ '\n') : isPlain c = true := by
      have := hcode.1
      simpa [isCode, hline] using this
    have hprepend : d.body? false (s ++ (d.text ++ rest)) = some (s, rest) →
        (d.body? false (s ++ (d.text ++ rest))).map (prepend c) = some (c :: s, rest) := by
      intro h
      rw [h]
      rfl
    rw [List.cons_append]
    cases hlong : d.long with
    | false =>
      simp only [hlong, Bool.false_eq_true, if_false, List.mem_cons, not_or] at hs ih
      obtain ⟨⟨hc, hq⟩, hline, hn⟩ := hs
      rw [body?_plain (by rw [hquote]; exact Ne.symm hc) (fun _ => hd) (hplain (Ne.symm hline)),
        hprepend (ih hcode.2 (n := 0) ⟨hq, hn⟩)]
    | true =>
      simp only [hlong, if_true, longestRun] at hs ih
      split at hs
      · next hc =>
        -- the run so far and the quotes that follow are within the longest run
        have hlead := leading_le_longestRun '\'' (n + 1) s
        subst hc
        rw [← hquote] at hlead
        rw [← hquote, body?_quote hlong (by rw [hquote] at hlead ⊢; omega) hrest, hquote,
          hprepend (ih hcode.2 (n := n + 1) (by omega))]
      · next hc =>
        have hread := hprepend (ih hcode.2 (n := 0) (by omega))
        by_cases hline : c = '\n'
        · subst hline
          rw [body?_newline hlong (by rw [hquote]; decide), hread]
        · rw [body?_plain (by rwa [hquote]) (fun _ => hd) (hplain hline), hread]

/-- The strings that can stand between two delimiters: between double quotes all of
them, and between single quotes those that need no escape. -/
def Holds (d : Delimiter) (s : List Char) : Prop :=
  d.quote = '"' ∨ d.quote = '\'' ∧ s.any isCode = false ∧
    if d.long then longestRun '\'' 0 s ≤ 2 else '\'' ∉ s ∧ '\n' ∉ s

theorem Holds.quote_eq {s : List Char} (h : d.Holds s) : d.quote = '"' ∨ d.quote = '\'' :=
  h.imp id And.left

/-- What is written between the delimiters. -/
def inner (d : Delimiter) (s : List Char) : List Char :=
  if d.escapes then escapeAll d.long 0 s else s

theorem body?_inner {s : List Char} (h : d.Holds s) (hrest : rest.head? ≠ some d.quote) :
    d.body? false (d.inner s ++ (d.text ++ rest)) = some (s, rest) := by
  rw [inner]
  rcases h with hquote | ⟨hquote, hcode, hs⟩
  · rw [if_pos (by simp [escapes, hquote])]
    exact body?_escapeAll hquote hrest s (Nat.zero_le 2)
  · rw [if_neg (by simp [escapes, hquote])]
    exact body?_raw hquote hrest s hcode hs

theorem head?_escapeAll {long : Bool} {run : Nat} {c e : Char} {s : List Char}
    (he : (escapeAll long run (c :: s)).head? = some e) :
    e = '\\' ∨ e = c ∧ (isPlain c = true ∨ c = '\n' ∧ long = true) ∧ (c = '"' → long = true) := by
  obtain ⟨t, ht⟩ := escape_eq_cons c
  rw [escapeAll, ht] at he
  split at he
  · next hquote =>
    by_cases hlt : run < if long = true then 2 else 0
    · rw [if_pos hlt] at he
      refine Or.inr ⟨(Option.some.inj he).symm, Or.inl (by rw [hquote]; decide), fun _ => ?_⟩
      by_contra hshort
      simp [hshort] at hlt
    · rw [if_neg hlt] at he
      exact Or.inl (Option.some.inj he).symm
  · next hquote =>
    split at he
    · next hline =>
      exact Or.inr ⟨(Option.some.inj he).symm, Or.inr hline, fun h => absurd h hquote⟩
    · split at he
      · exact Or.inl (Option.some.inj he).symm
      · next hcode =>
        simp only [not_or, Bool.not_eq_true, Bool.not_eq_false'] at hcode
        exact Or.inr ⟨(Option.some.inj he).symm, Or.inl hcode.2.2, fun h => absurd h hquote⟩

/-- What can stand first between the delimiters: neither a short delimiter nor the
first half of a line break, and a whole one only where lines are allowed. -/
theorem of_head?_inner {s : List Char} (h : d.Holds s) {e : Char}
    (he : (d.inner s).head? = some e) :
    e ≠ '\r' ∧ (e = '\n' → '\n' ∈ s) ∧ (e = d.quote → d.long = true) := by
  cases s with
  | nil =>
    rw [inner] at he
    split at he
    · nomatch he
    · nomatch he
  | cons c s =>
    rw [inner] at he
    rcases h with hquote | ⟨hquote, hcode, hs⟩
    · rw [if_pos (by simp [escapes, hquote])] at he
      rw [hquote]
      rcases head?_escapeAll he with rfl | ⟨rfl, hplain, hlong⟩
      · exact ⟨by decide, fun h => absurd h (by decide), fun h => absurd h (by decide)⟩
      · refine ⟨?_, fun hline => hline ▸ List.mem_cons_self, hlong⟩
        rintro rfl
        rcases hplain with hplain | hline
        · exact absurd hplain (by decide)
        · exact absurd hline.1 (by decide)
    · rw [if_neg (by simp [escapes, hquote])] at he
      obtain rfl := Option.some.inj he
      refine ⟨?_, fun hline => hline ▸ List.mem_cons_self, fun hq => ?_⟩
      · rintro rfl
        exact absurd hcode (by simp [isCode, isPlain])
      · by_contra hshort
        simp [hshort, hq, hquote] at hs

theorem write_append (d : Delimiter) (s rest : List Char) : d.write s ++ rest =
    d.text ++ ((if d.long ∧ '\n' ∈ s then ['\n'] else []) ++ (d.inner s ++ (d.text ++ rest))) := by
  simp [write, inner]

theorem dropNewline_eq_self {s : List Char} (hline : s.head? ≠ some '\n')
    (hreturn : s.head? ≠ some '\r') : dropNewline s = s := by
  cases s with
  | nil => rfl
  | cons c s =>
    rw [dropNewline.eq_def]
    split
    · next h => exact absurd (congrArg List.head? h) hline
    · next h => exact absurd (congrArg List.head? h) hreturn
    · rfl

theorem read?_write_append {s : List Char} (h : d.Holds s) (hrest : rest.head? ≠ some d.quote) :
    d.read? (d.write s ++ rest) = some (s, rest) := by
  rw [read?, write_append, after?_append, Option.bind_some]
  have hquote : d.quote ≠ '\n' ∧ d.quote ≠ '\r' := by
    rcases h.quote_eq with hq | hq
    · rw [hq]; decide
    · rw [hq]; decide
  cases hlong : d.long with
  | false => simpa using body?_inner h hrest
  | true =>
    rw [if_pos rfl]
    by_cases hline : '\n' ∈ s
    · rw [if_pos ⟨rfl, hline⟩]
      exact body?_inner h hrest
    · have hhead (e : Char) : (d.inner s ++ (d.text ++ rest)).head? = some e →
          (d.inner s).head? = some e ∨ e = d.quote := by
        rw [List.head?_append, text_of_long hlong]
        cases (d.inner s).head? with
        | none => exact fun he => Or.inr (Option.some.inj he).symm
        | some c => exact Or.inl
      rw [if_neg fun hc => hline hc.2, List.nil_append, dropNewline_eq_self]
      · exact body?_inner h hrest
      · intro he
        rcases hhead _ he with hi | hq
        · exact hline ((of_head?_inner h hi).2.1 rfl)
        · exact hquote.1 hq.symm
      · intro he
        rcases hhead _ he with hi | hq
        · exact (of_head?_inner h hi).1 rfl
        · exact hquote.2 hq.symm

/-- A short string does not look like the start of a long one. -/
theorem not_long_of_short (hlong : d.long = false) {s : List Char} (h : d.Holds s)
    (hrest : rest.head? ≠ some d.quote) :
    ¬List.replicate 3 d.quote <+: d.write s ++ rest := by
  intro hp
  rw [write_append, hlong, if_neg (by simp), List.nil_append, text_of_not_long hlong,
    List.singleton_append, List.replicate_succ, List.cons_prefix_cons] at hp
  cases hi : d.inner s with
  | nil =>
    rw [hi, List.nil_append, List.singleton_append, List.replicate_succ,
      List.cons_prefix_cons] at hp
    obtain ⟨t, ht⟩ := hp.2.2
    exact hrest (by rw [← ht]; rfl)
  | cons e t =>
    rw [hi, List.cons_append, List.replicate_succ, List.cons_prefix_cons] at hp
    have hshort := (of_head?_inner h (by rw [hi, List.head?_cons])).2.2 hp.2.1.symm
    rw [hlong] at hshort
    nomatch hshort

theorem delimiter?_write_append {s : List Char} (h : d.Holds s)
    (hrest : rest.head? ≠ some d.quote) : delimiter? (d.write s ++ rest) = some d := by
  have hself : (after? d.text (d.write s ++ rest)).isSome := by
    rw [write_append, after?_append]
    rfl
  obtain ⟨q, long⟩ := d
  have hother (d' : Delimiter) (hd : d'.quote ≠ q) :
      (after? d'.text (write ⟨q, long⟩ s ++ rest)).isSome = false := by
    obtain ⟨t, ht⟩ : ∃ t, write ⟨q, long⟩ s ++ rest = q :: t := by
      rw [write_append]
      cases long with
      | false => exact ⟨_, rfl⟩
      | true => exact ⟨_, rfl⟩
    obtain ⟨q', long'⟩ := d'
    rw [ht]
    cases long' with
    | false => simp [text, after?, hd]
    | true => simp [text, List.replicate, after?, hd]
  have hlonger (hlong : long = false) :
      (after? (text ⟨q, true⟩) (write ⟨q, long⟩ s ++ rest)).isSome = false := by
    rw [← Bool.not_eq_true, isSome_after?_iff]
    exact not_long_of_short hlong h hrest
  simp only [delimiter?, longBasic, longLiteral, basic, literal, List.find?_cons]
  rcases h.quote_eq with hq | hq
  · obtain rfl : q = '"' := hq
    have hlongLiteral := hother ⟨'\'', true⟩ (by decide)
    cases long with
    | true => simp only [hself]
    | false => simp only [hlonger, hlongLiteral, hself]
  · obtain rfl : q = '\'' := hq
    have hlongBasic := hother ⟨'"', true⟩ (by decide)
    have hbasic := hother ⟨'"', false⟩ (by decide)
    cases long with
    | true => simp only [hlongBasic, hself]
    | false => simp only [hlongBasic, hlonger, hbasic, hself]

end Delimiter

theorem holds_delimiterOf (s : List Char) : (delimiterOf s).Holds s := by
  unfold delimiterOf
  simp only [Bool.not_eq_true', decide_eq_false_iff_not]
  split
  · exact Or.inl rfl
  · split
    · next h => exact Or.inr ⟨rfl, h.1, h.2⟩
    · split
      · exact Or.inl rfl
      · split
        · next h => exact Or.inr ⟨rfl, h⟩
        · split
          · exact Or.inl rfl
          · exact Or.inl rfl

/-! ### Keys -/

/-- What can stand right after a key. -/
def EndsKey (rest : List Char) : Prop :=
  ∃ c s, rest = c :: s ∧ isKeyChar c = false ∧ c ≠ '"' ∧ c ≠ '\''

theorem keyText_eq_cons (k : List Char) :
    ∃ c s, keyText k = c :: s ∧ (isKeyChar c = true ∨ c = '"' ∨ c = '\'') := by
  rw [keyText]
  split
  · next h =>
    obtain ⟨c, s, rfl⟩ := List.exists_cons_of_ne_nil h.1
    exact ⟨c, s, rfl, Or.inl (List.all_eq_true.1 h.2 c List.mem_cons_self)⟩
  · split
    · exact ⟨'\'', _, rfl, Or.inr (Or.inr rfl)⟩
    · exact ⟨'"', _, rfl, Or.inr (Or.inl rfl)⟩

theorem key?_bare_append {k rest : List Char} (hne : k ≠ []) (hk : k.all isKeyChar = true)
    (hrest : EndsKey rest) : key? (k ++ rest) = some (k, rest) := by
  obtain ⟨c, s, rfl, hc, -⟩ := hrest
  have htake : (k ++ c :: s).takeWhile isKeyChar = k := by
    rw [List.takeWhile_append_of_pos (List.all_eq_true.1 hk),
      List.takeWhile_cons_of_neg (by simp [hc]), List.append_nil]
  have hdrop : (k ++ c :: s).dropWhile isKeyChar = c :: s := by
    rw [List.dropWhile_append_of_pos (List.all_eq_true.1 hk),
      List.dropWhile_cons_of_neg (by simp [hc])]
  obtain ⟨a, t, rfl⟩ := List.exists_cons_of_ne_nil hne
  have ha := List.all_eq_true.1 hk a List.mem_cons_self
  rw [key?.eq_def]
  split
  · next h => exact absurd ha (by rw [List.head_eq_of_cons_eq h]; decide)
  · next h => exact absurd ha (by rw [List.head_eq_of_cons_eq h]; decide)
  · rw [htake, hdrop]

theorem key?_keyText_append (k : List Char) {rest : List Char} (hrest : EndsKey rest) :
    key? (keyText k ++ rest) = some (k, rest) := by
  obtain ⟨hbasic, hliteral⟩ : rest.head? ≠ some '"' ∧ rest.head? ≠ some '\'' := by
    obtain ⟨c, s, rfl, -, hb, hl⟩ := hrest
    exact ⟨fun h => hb (Option.some.inj h), fun h => hl (Option.some.inj h)⟩
  rw [keyText]
  split
  · next h => exact key?_bare_append h.1 h.2 hrest
  · split
    · next h =>
      obtain ⟨hplain, -, hquote⟩ := h
      rw [List.all_eq_true] at hplain
      have hline : '\n' ∉ k := fun hm => absurd (hplain _ hm) (by decide)
      have hcode : k.any isCode = false := by
        rw [List.any_eq_false]
        intro c hc
        simp [isCode, hplain c hc]
      exact Delimiter.read?_write_append (d := .literal)
        (Or.inr ⟨rfl, hcode, hquote, hline⟩) hliteral
    · exact Delimiter.read?_write_append (d := .basic) (Or.inl rfl) hbasic

end PodTarget.Toml
