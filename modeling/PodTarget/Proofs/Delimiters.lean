import PodTarget.Starlark.Layout

/-! Where a literal and a block end can be told from the text itself. An escape
shows how long it is, so a literal ends at its first quote that is not escaped.
The lines of a block are indented more than its closing bracket, so a block ends
at the first line that is not, if its parts are told from what follows them. -/

namespace PodTarget.Starlark

open Text

/-- The character that the first escape of a text stands for, and what follows. -/
def unescape? : List Char → Option (Char × List Char)
  | '\\' :: 'x' :: a :: b :: s => do
    let high ← hexValue? a
    let low ← hexValue? b
    some (.ofNat (16 * high + low), s)
  | '\\' :: c :: s =>
    if c = 'n' then some ('\n', s)
    else if c = 't' then some ('\t', s)
    else if c = 'r' then some ('\r', s)
    else some (c, s)
  | c :: s => if c = '"' then none else some (c, s)
  | [] => none

theorem unescape?_escape (c : Char) (s : List Char) : unescape? (escape c ++ s) = some (c, s) := by
  by_cases hquote : c = '"'
  · subst hquote; simp [escape, unescape?]
  by_cases hslash : c = '\\'
  · subst hslash; simp [escape, unescape?]
  by_cases hline : c = '\n'
  · subst hline; simp [escape, unescape?]
  by_cases htab : c = '\t'
  · subst htab; simp [escape, unescape?]
  by_cases hreturn : c = '\r'
  · subst hreturn; simp [escape, unescape?]
  by_cases hcontrol : isControl c = true
  · have hsmall : c.toNat < 128 := by
      simp only [isControl, Bool.or_eq_true, decide_eq_true_eq] at hcontrol
      omega
    have hvalue : 16 * (c.toNat / 16) + c.toNat % 16 = c.toNat := Nat.div_add_mod ..
    have hhigh := hexValue?_hexDigit (n := c.toNat / 16) (by omega)
    have hlow := hexValue?_hexDigit (n := c.toNat % 16) (by omega)
    simp [escape, hquote, hslash, hline, htab, hreturn, hcontrol, unescape?, hhigh, hlow, hvalue]
  · simp [escape, hquote, hslash, hline, htab, hreturn, hcontrol, unescape?]

theorem escape_append_inj {c d : Char} {s t : List Char} (h : escape c ++ s = escape d ++ t) :
    c = d ∧ s = t := by
  have hread := congrArg unescape? h
  rw [unescape?_escape, unescape?_escape] at hread
  exact Prod.mk.inj (Option.some.inj hread)

theorem escape_append_ne (c : Char) (s t : List Char) : escape c ++ s ≠ '"' :: t := by
  intro h
  have hread := congrArg unescape? h
  rw [unescape?_escape] at hread
  simp [unescape?] at hread

/-- A literal ends at its own closing quote, whatever follows. -/
theorem quote_append_inj {s t u v : List Char} (h : quote s ++ u = quote t ++ v) :
    s = t ∧ u = v := by
  have body : ∀ s t : List Char,
      s.flatMap escape ++ '"' :: u = t.flatMap escape ++ '"' :: v → s = t ∧ u = v := by
    intro s
    induction s with
    | nil =>
      intro t h
      cases t with
      | nil => exact ⟨rfl, List.tail_eq_of_cons_eq h⟩
      | cons d t =>
        rw [List.flatMap_cons, List.append_assoc] at h
        exact absurd h.symm (escape_append_ne d _ _)
    | cons c s ih =>
      intro t h
      rw [List.flatMap_cons, List.append_assoc] at h
      cases t with
      | nil => exact absurd h (escape_append_ne c _ _)
      | cons d t =>
        rw [List.flatMap_cons, List.append_assoc] at h
        obtain ⟨rfl, hrest⟩ := escape_append_inj h
        obtain ⟨rfl, rfl⟩ := ih t hrest
        exact ⟨rfl, rfl⟩
  refine body s t ?_
  simpa [quote] using h

/-- Whatever is written like `a`, up to what follows it, is `a`. -/
def Delimited {α : Type} (P : α → Prop) (write : α → List Char) (a : α) : Prop :=
  ∀ b, P b → ∀ r r', write a ++ r = write b ++ r' → a = b ∧ r = r'

theorem delimited_comma {α : Type} {P : α → Prop} {write : α → List Char} {a : α}
    (h : Delimited P write a) : Delimited P (fun a => write a ++ [',']) a := by
  intro b hb r r' heq
  simp only [List.append_assoc] at heq
  obtain ⟨hab, hr⟩ := h b hb _ _ heq
  exact ⟨hab, List.append_cancel_left hr⟩

theorem delimited_quote (s : String) :
    Delimited (fun _ => True) (fun s : String => quote s.toList) s := by
  intro t _ r r' h
  obtain ⟨hst, hr⟩ := quote_append_inj h
  exact ⟨String.toList_injective hst, hr⟩

section Blocks

variable {α : Type} {P : α → Prop} {write : α → Nat → List Char} {as bs : List α} {level : Nat}
  {r r' : List Char}

theorem lineBreak_succ (level : Nat) :
    lineBreak (level + 1) = lineBreak level ++ [' ', ' ', ' ', ' '] := by
  rw [lineBreak, lineBreak, Nat.mul_add, ← List.replicate_append_replicate]
  rfl

/-- The lines of a block but the last, which is less indented than these. -/
def blockLines (write : α → Nat → List Char) (as : List α) (level : Nat) : List Char :=
  as.flatMap fun a => lineBreak (level + 1) ++ write a (level + 1) ++ [',']

theorem block_eq (opening closing : Char) : block opening closing (as.map write) level =
    opening :: (blockLines write as level ++ (lineBreak level ++ [closing])) := by
  rw [block, blockLines, List.flatMap_map]

theorem blockLines_nil_append (t : List Char) : blockLines write [] level ++ t = t := rfl

theorem blockLines_cons_append (a : α) (t : List Char) :
    blockLines write (a :: as) level ++ t = lineBreak level ++ (' ' :: ' ' :: ' ' :: ' ' ::
      ((write a (level + 1) ++ [',']) ++ (blockLines write as level ++ t))) := by
  simp [blockLines, lineBreak_succ]

theorem blockLines_append_inj {closing : Char} (hclosing : closing ≠ ' ')
    (ha : ∀ a ∈ as, Delimited P (fun a => write a (level + 1) ++ [',']) a) (hb : ∀ b ∈ bs, P b)
    (h : blockLines write as level ++ (lineBreak level ++ closing :: r) =
      blockLines write bs level ++ (lineBreak level ++ closing :: r')) : as = bs ∧ r = r' := by
  -- after the line break that both have, a further line goes on with a blank
  induction as generalizing bs with
  | nil =>
    rw [blockLines_nil_append] at h
    cases bs with
    | nil =>
      rw [blockLines_nil_append] at h
      exact ⟨rfl, List.tail_eq_of_cons_eq (List.append_cancel_left h)⟩
    | cons b bs =>
      rw [blockLines_cons_append] at h
      exact absurd (List.head_eq_of_cons_eq (List.append_cancel_left h)) hclosing
  | cons a as ih =>
    rw [blockLines_cons_append] at h
    cases bs with
    | nil =>
      rw [blockLines_nil_append] at h
      exact absurd (List.head_eq_of_cons_eq (List.append_cancel_left h)).symm hclosing
    | cons b bs =>
      rw [blockLines_cons_append] at h
      have hlines := List.append_cancel_left h
      simp only [List.cons.injEq, true_and] at hlines
      rw [List.forall_mem_cons] at ha hb
      obtain ⟨rfl, hrest⟩ := ha.1 b hb.1 _ _ hlines
      obtain ⟨rfl, rfl⟩ := ih ha.2 hb.2 hrest
      exact ⟨rfl, rfl⟩

theorem block_append_inj {opening closing : Char} (hclosing : closing ≠ ' ')
    (ha : ∀ a ∈ as, Delimited P (fun a => write a (level + 1) ++ [',']) a) (hb : ∀ b ∈ bs, P b)
    (h : block opening closing (as.map write) level ++ r =
      block opening closing (bs.map write) level ++ r') : as = bs ∧ r = r' := by
  refine blockLines_append_inj hclosing ha hb ?_
  simpa [block_eq] using h

theorem block_eq_cons (opening closing : Char) (parts : List (Nat → List Char)) (level : Nat) :
    ∃ rest, block opening closing parts level = opening :: '\n' :: rest := by
  cases parts with
  | nil => exact ⟨_, rfl⟩
  | cons p parts => exact ⟨_, rfl⟩

theorem braced_append_inj
    (ha : ∀ a ∈ as, Delimited P (fun a => write a (level + 1) ++ [',']) a) (hb : ∀ b ∈ bs, P b)
    (h : braced (as.map write) level ++ r = braced (bs.map write) level ++ r') :
    as = bs ∧ r = r' := by
  have filled (a : α) (as : List α) :
      ∃ rest, braced ((a :: as).map write) level = '\x7b' :: '\n' :: rest := block_eq_cons ..
  cases as with
  | nil =>
    cases bs with
    | nil => exact ⟨rfl, by simpa using h⟩
    | cons b bs =>
      obtain ⟨rest, hrest⟩ := filled b bs
      rw [hrest] at h
      simp [braced] at h
  | cons a as =>
    cases bs with
    | nil =>
      obtain ⟨rest, hrest⟩ := filled a as
      rw [hrest] at h
      simp [braced] at h
    | cons b bs => exact block_append_inj (by decide) ha hb h

end Blocks

end PodTarget.Starlark
