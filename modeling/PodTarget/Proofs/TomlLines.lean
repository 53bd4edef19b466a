import PodTarget.Proofs.TomlStrings
import PodTarget.Toml.Printer
import PodTarget.Toml.Reader

/-! A document of TOML that is printed is read back line by line, for lines whose
values are made of strings, truth values and arrays. A line starts with a key or a
bracket and an item of an array with a value, so nothing in front of them is passed
over but the blanks that were put there. -/

namespace PodTarget.Toml

open Text

/-- A text at whose front nothing is passed over. -/
def Solid (s : List Char) : Prop :=
  ∃ c t, s = c :: t ∧ isGap c = false ∧ c ≠ '#' ∧ c ≠ '\n' ∧ c ≠ '\r'

namespace Solid

variable {s : List Char} (h : Solid s)

include h

theorem append (t : List Char) : Solid (s ++ t) := by
  obtain ⟨c, u, rfl, hc⟩ := h
  exact ⟨c, u ++ t, rfl, hc⟩

theorem skipGap_eq : skipGap s = s := by
  obtain ⟨c, t, rfl, hgap, -⟩ := h
  exact List.dropWhile_cons_of_neg (by simp [hgap])

theorem newline?_eq : newline? (skipComment (skipGap s)) = none := by
  rw [h.skipGap_eq]
  obtain ⟨c, t, rfl, -, hcomment, hline, hreturn⟩ := h
  rw [skipComment.eq_def]
  split
  · next h => exact absurd (List.head_eq_of_cons_eq h) hcomment
  · rw [newline?.eq_def]
    split
    · next h => exact absurd (List.head_eq_of_cons_eq h) hline
    · next h => exact absurd (List.head_eq_of_cons_eq h) hreturn
    · rfl

theorem lineEnd?_eq : lineEnd? s = none := by
  have hnewline := h.newline?_eq
  rw [lineEnd?]
  split
  · next hnil =>
    rw [h.skipGap_eq] at hnil
    obtain ⟨c, t, rfl, -, hcomment, -⟩ := h
    rw [skipComment.eq_def] at hnil
    split at hnil
    · next h => exact absurd (List.head_eq_of_cons_eq h) hcomment
    · nomatch hnil
  · exact hnewline

theorem skipLines_eq (n : Nat) : skipLines n s = s := by
  cases n with
  | zero => rfl
  | succ n => rw [skipLines, h.newline?_eq]; exact h.skipGap_eq

theorem skipAll_eq : skipAll s = s := h.skipLines_eq _

/-- What is on a new line, behind blanks. -/
theorem skipAll_indented (n : Nat) : skipAll ('\n' :: (List.replicate n ' ' ++ s)) = s := by
  have hgap : skipGap (List.replicate n ' ' ++ s) = s := by
    rw [skipGap, List.dropWhile_append_of_pos fun c hc => by rw [List.eq_of_mem_replicate hc]; rfl]
    exact h.skipGap_eq
  have hnone := h.newline?_eq
  rw [h.skipGap_eq] at hnone
  rw [skipAll, List.length_cons, skipLines]
  show skipLines _ (List.replicate n ' ' ++ s) = s
  cases hl : (List.replicate n ' ' ++ s).length with
  | zero =>
    obtain ⟨c, t, rfl, -⟩ := h
    simp at hl
  | succ m => rw [skipLines, hgap, hnone]

end Solid

theorem solid_cons {c : Char} (h : isKeyChar c = true ∨ c = '"' ∨ c = '\'' ∨ c = '[' ∨ c = ',' ∨
    c = ']') (s : List Char) : Solid (c :: s) := by
  refine ⟨c, s, rfl, ?_⟩
  rcases h with h | rfl | rfl | rfl | rfl | rfl
  · refine ⟨?_, ?_, ?_, ?_⟩
    · rw [← Bool.not_eq_true]
      intro hgap
      simp only [isGap, Bool.or_eq_true, decide_eq_true_eq] at hgap
      rcases hgap with rfl | rfl
      · exact absurd h (by decide)
      · exact absurd h (by decide)
    all_goals
      rintro rfl
      exact absurd h (by decide)
  all_goals decide

/-! ### Paths -/

theorem pathText_singleton (k : String) : pathText [k] = keyText k.toList := by
  simp [pathText]

theorem pathText_cons_cons (k k' : String) (ks : List String) :
    pathText (k :: k' :: ks) = keyText k.toList ++ '.' :: pathText (k' :: ks) := by
  simp [pathText]

theorem pathText_eq_cons {path : List String} (h : path ≠ []) :
    ∃ c s, pathText path = c :: s ∧ (isKeyChar c = true ∨ c = '"' ∨ c = '\'') := by
  obtain ⟨k, ks, rfl⟩ := List.exists_cons_of_ne_nil h
  obtain ⟨c, s, hk, hc⟩ := keyText_eq_cons k.toList
  cases ks with
  | nil => exact ⟨c, s, by rw [pathText_singleton, hk], hc⟩
  | cons k' ks => exact ⟨c, _, by rw [pathText_cons_cons, hk, List.cons_append], hc⟩

theorem solid_pathText {path : List String} (h : path ≠ []) : Solid (pathText path) := by
  obtain ⟨c, s, hp, hc⟩ := pathText_eq_cons h
  rw [hp]
  exact solid_cons (by rcases hc with h | h | h <;> simp [h]) s

theorem solid_keyText (k : String) : Solid (keyText k.toList) :=
  pathText_singleton k ▸ solid_pathText (List.cons_ne_nil k [])

/-- A line that starts with a path is no header. -/
theorem pathText_eq_cons_of_ne {path : List String} (h : path ≠ []) :
    ∃ c s, pathText path = c :: s ∧ c ≠ '[' := by
  obtain ⟨c, s, hp, hc⟩ := pathText_eq_cons h
  refine ⟨c, s, hp, ?_⟩
  rintro rfl
  exact absurd hc (by decide)

theorem keys?_pathText_append {path : List String} (hne : path ≠ []) {n : Nat}
    (hn : path.length ≤ n) {rest : List Char} (hrest : EndsKey rest)
    (hdot : (skipGap rest).head? ≠ some '.') :
    keys? n (pathText path ++ rest) = some (path, skipGap rest) := by
  induction path generalizing n with
  | nil => exact absurd rfl hne
  | cons k ks ih =>
    obtain ⟨n, rfl⟩ := Nat.exists_eq_add_of_lt (Nat.lt_of_lt_of_le (Nat.zero_lt_succ _) hn)
    rw [Nat.zero_add] at hn ⊢
    rw [keys?]
    cases ks with
    | nil =>
      rw [pathText_singleton, ((solid_keyText _).append _).skipGap_eq,
        key?_keyText_append _ hrest]
      simp only [Option.bind_eq_bind, Option.bind_some]
      split
      · next h => exact absurd (by rw [h, List.head?_cons]) hdot
      · simp
    | cons k' ks =>
      have hdotted : EndsKey ('.' :: (pathText (k' :: ks) ++ rest)) :=
        ⟨'.', _, rfl, by decide, by decide, by decide⟩
      rw [pathText_cons_cons, List.append_assoc, List.cons_append,
        ((solid_keyText _).append _).skipGap_eq, key?_keyText_append _ hdotted]
      have hread := ih (by simp) (n := n) (by simpa using hn)
      simp [skipGap, isGap, hread]

/-! ### Values -/

/-- The values made of strings, truth values and arrays, of at most so many levels. -/
inductive Plain : Nat → Value → Prop
  | string {n : Nat} (s : String) : Plain n (.string s)
  | boolean {n : Nat} (b : Bool) : Plain n (.boolean b)
  | array {n : Nat} {items : List Value} (h : ∀ v ∈ items, Plain n v) : Plain (n + 1) (.array items)

/-- What can stand right after a value. -/
def EndsValue (rest : List Char) : Prop := rest.head? ≠ some '"' ∧ rest.head? ≠ some '\''

theorem endsValue_cons {c : Char} (h : c = ',' ∨ c = ']' ∨ c = '\n') (s : List Char) :
    EndsValue (c :: s) := by
  rw [EndsValue, List.head?_cons]
  rcases h with rfl | rfl | rfl
  all_goals decide

theorem value?_of_scalar {c : Char} (harray : c ≠ '[') (htable : c ≠ '\x7b') (n : Nat)
    (s : List Char) : value? n (c :: s) = scalarValue? (c :: s) := by
  rw [value?.eq_def]
  split
  · next h => exact absurd (List.head_eq_of_cons_eq h) harray
  · next h => exact absurd (List.head_eq_of_cons_eq h) htable
  · next h => exact absurd (List.head_eq_of_cons_eq h) harray
  · next h => exact absurd (List.head_eq_of_cons_eq h) htable
  · rfl

theorem quote_eq_cons (s : List Char) : ∃ c t, quote s = c :: t ∧ (c = '"' ∨ c = '\'') := by
  have hd := (holds_delimiterOf s).quote_eq
  rw [quote, Delimiter.write, Delimiter.text]
  cases (delimiterOf s).long with
  | false => exact ⟨(delimiterOf s).quote, _, rfl, hd⟩
  | true => exact ⟨(delimiterOf s).quote, _, rfl, hd⟩

theorem value?_string_append (s : String) (n : Nat) {rest : List Char} (hrest : EndsValue rest) :
    value? n ((Value.string s).text ++ rest) = some (.string s, rest) := by
  have hd := holds_delimiterOf s.toList
  have hends : rest.head? ≠ some (delimiterOf s.toList).quote := by
    rcases hd.quote_eq with hq | hq
    · rw [hq]; exact hrest.1
    · rw [hq]; exact hrest.2
  obtain ⟨c, t, ht, hc⟩ := quote_eq_cons s.toList
  have harray : c ≠ '[' := by rcases hc with rfl | rfl <;> decide
  have htable : c ≠ '\x7b' := by rcases hc with rfl | rfl <;> decide
  rw [Value.text, ht, List.cons_append, value?_of_scalar harray htable, ← List.cons_append, ← ht,
    scalarValue?, quote, Delimiter.delimiter?_write_append hd hends]
  simp [Delimiter.read?_write_append hd hends]

theorem delimiter?_of_ne {c : Char} (hbasic : c ≠ '"') (hliteral : c ≠ '\'') (s : List Char) :
    delimiter? (c :: s) = none := by
  rw [delimiter?, List.find?_eq_none]
  intro d hd
  simp only [List.mem_cons, List.not_mem_nil, or_false] at hd
  rcases hd with rfl | rfl | rfl | rfl
  all_goals simp [Delimiter.text, Delimiter.longBasic, Delimiter.longLiteral, Delimiter.basic,
    Delimiter.literal, after?, List.replicate, Ne.symm hbasic, Ne.symm hliteral]

theorem value?_boolean_append (b : Bool) (n : Nat) (rest : List Char) :
    value? n ((Value.boolean b).text ++ rest) = some (.boolean b, rest) := by
  rw [Value.text]
  cases b with
  | true =>
    show value? n ('t' :: ('r' :: 'u' :: 'e' :: rest)) = _
    rw [value?_of_scalar (by decide) (by decide), scalarValue?,
      delimiter?_of_ne (by decide) (by decide)]
    rfl
  | false =>
    show value? n ('f' :: ('a' :: 'l' :: 's' :: 'e' :: rest)) = _
    rw [value?_of_scalar (by decide) (by decide), scalarValue?,
      delimiter?_of_ne (by decide) (by decide)]
    rfl

theorem itemTexts_eq_map (vs : List Value) : itemTexts vs = vs.map Value.text := by
  induction vs with
  | nil => rfl
  | cons v vs ih => rw [itemTexts, ih, List.map_cons]

theorem Plain.text_eq_cons {n : Nat} {v : Value} (h : Plain n v) :
    ∃ c s, v.text = c :: s ∧ (isKeyChar c = true ∨ c = '"' ∨ c = '\'' ∨ c = '[') := by
  cases h with
  | string s =>
    obtain ⟨c, t, ht, hc⟩ := quote_eq_cons s.toList
    exact ⟨c, t, by rw [Value.text, ht], by rcases hc with rfl | rfl <;> simp⟩
  | boolean b =>
    rw [Value.text]
    cases b with
    | true => exact ⟨'t', _, rfl, Or.inl (by decide)⟩
    | false => exact ⟨'f', _, rfl, Or.inl (by decide)⟩
  | array h =>
    rw [Value.text]
    unfold bracketed
    split
    all_goals exact ⟨'[', _, rfl, by simp⟩

theorem Plain.solid {n : Nat} {v : Value} (h : Plain n v) : Solid v.text := by
  obtain ⟨c, s, hs, hc⟩ := h.text_eq_cons
  rw [hs]
  exact solid_cons (by rcases hc with hc | hc | hc | hc <;> simp [hc]) s

theorem Plain.head?_append_ne {n : Nat} {v : Value} (h : Plain n v) (rest : List Char) :
    (v.text ++ rest).head? ≠ some ']' := by
  obtain ⟨c, s, hs, hc⟩ := h.text_eq_cons
  rw [hs, List.cons_append, List.head?_cons]
  rintro ⟨rfl⟩
  exact absurd hc (by decide)

/-! An array of several items has each of them on a line of its own. -/

def itemLine (v : Value) : List Char := '\n' :: (List.replicate 4 ' ' ++ (v.text ++ [',']))

theorem text_array_of_two (v w : Value) (vs : List Value) :
    (Value.array (v :: w :: vs)).text = '[' :: ((v :: w :: vs).flatMap itemLine ++ ['\n', ']']) := by
  rw [Value.text, itemTexts_eq_map, List.map_cons, List.map_cons, bracketed]
  · simp [List.flatMap_map, itemLine, List.replicate]
    rfl
  · simp
  · simp

section Items

variable {item? : List Char → Option (Value × List Char)} {rest : List Char}

theorem items?_end {s : List Char} (hs : skipAll s = ']' :: rest) (n : Nat) :
    items? item? (n + 1) s = some ([], rest) := by
  rw [items?, hs]
  rfl

theorem items?_last {s : List Char} {v : Value} (hs : Solid s) (hbracket : s.head? ≠ some ']')
    (hv : item? s = some (v, ']' :: rest)) (n : Nat) :
    items? item? (n + 1) s = some ([v], rest) := by
  rw [items?, hs.skipAll_eq]
  split
  · next h => exact absurd rfl hbracket
  · rw [hv]
    simp only [Option.bind_eq_bind, Option.bind_some]
    rw [(solid_cons (by simp) rest).skipAll_eq]
    rfl

theorem items?_cons {s t : List Char} {v : Value} (hs : skipAll s = t)
    (hbracket : t.head? ≠ some ']') (hv : item? t = some (v, ',' :: rest)) (n : Nat) :
    items? item? (n + 1) s = (items? item? n rest).map fun r => (v :: r.1, r.2) := by
  rw [items?, hs]
  split
  · next h => exact absurd rfl hbracket
  · rw [hv]
    simp only [Option.bind_eq_bind, Option.bind_some]
    rw [(solid_cons (by simp) rest).skipAll_eq]
    show (items? item? n rest).bind (fun r => some (v :: r.1, r.2)) = _
    rw [Option.map_eq_bind]
    rfl

theorem length_le_itemLines (vs : List Value) (s : List Char) :
    vs.length ≤ (vs.flatMap itemLine ++ s).length := by
  induction vs with
  | nil => exact Nat.zero_le _
  | cons v vs ih =>
    simp only [List.flatMap_cons, itemLine, List.cons_append, List.length_cons, List.append_assoc,
      List.length_append, List.length_replicate] at ih ⊢
    omega

/-- The lines of several items, each of which is read whatever stands after its comma. -/
theorem items?_lines {levels : Nat} {vs : List Value} (h : ∀ v ∈ vs, Plain levels v)
    (hread : ∀ v ∈ vs, ∀ r, item? (v.text ++ ',' :: r) = some (v, ',' :: r)) {n : Nat}
    (hn : vs.length < n) :
    items? item? n (vs.flatMap itemLine ++ '\n' :: ']' :: rest) = some (vs, rest) := by
  -- one step for each item and one for the bracket
  induction vs generalizing n with
  | nil =>
    cases n with
    | zero => exact absurd hn (Nat.not_lt_zero _)
    | succ n => exact items?_end ((solid_cons (by simp) rest).skipAll_indented 0) n
  | cons v vs ih =>
    obtain ⟨n, rfl⟩ := Nat.exists_eq_succ_of_ne_zero (Nat.ne_zero_of_lt hn)
    rw [List.forall_mem_cons] at h hread
    have hline : (v :: vs).flatMap itemLine ++ '\n' :: ']' :: rest =
        '\n' :: (List.replicate 4 ' ' ++
          (v.text ++ ',' :: (vs.flatMap itemLine ++ '\n' :: ']' :: rest))) := by
      simp [itemLine]
    rw [hline, items?_cons ((h.1.solid.append _).skipAll_indented 4) (h.1.head?_append_ne _)
      (hread.1 _), ih h.2 hread.2 (Nat.lt_of_succ_lt_succ hn)]
    rfl

end Items

/-- A value is read back, whatever stands after it that no value goes on with. -/
theorem Plain.value?_append {n : Nat} {v : Value} (h : Plain n v) {rest : List Char}
    (hrest : EndsValue rest) : value? n (v.text ++ rest) = some (v, rest) := by
  induction h generalizing rest with
  | string s => exact value?_string_append s _ hrest
  | boolean b => exact value?_boolean_append b _ rest
  | @array n items h ih =>
    have hread (s : List Char) (r : List Value × List Char)
        (h : items? (value? n) (s.length + 1) s = some r) :
        value? (n + 1) ('[' :: s) = some (.array r.1, r.2) := by
      rw [value?, h]
      rfl
    cases items with
    | nil => exact hread _ ([], rest) (items?_end (solid_cons (by simp) rest).skipAll_eq _)
    | cons w ws =>
      cases ws with
      | nil =>
        rw [List.forall_mem_cons] at h ih
        have htext : (Value.array [w]).text ++ rest = '[' :: (w.text ++ ']' :: rest) := by
          simp [Value.text, itemTexts_eq_map, bracketed]
        have hitem := ih.1 (endsValue_cons (Or.inr (Or.inl rfl)) rest)
        rw [htext]
        exact hread _ ([w], rest)
          (items?_last (h.1.solid.append _) (h.1.head?_append_ne _) hitem _)
      | cons w' ws =>
        have hitem (v : Value) (hv : v ∈ w :: w' :: ws) (r : List Char) :
            value? n (v.text ++ ',' :: r) = some (v, ',' :: r) :=
          ih v hv (endsValue_cons (Or.inl rfl) r)
        have hlength := length_le_itemLines (w :: w' :: ws) ('\n' :: ']' :: rest)
        rw [text_array_of_two, List.cons_append, List.append_assoc]
        exact hread _ (w :: w' :: ws, rest) (items?_lines h hitem (Nat.lt_succ_of_le hlength))

/-! ### Lines -/

/-- A line whose path is not too long, with a value that is plain. -/
def Statement.Plain : Statement → Prop
  | .assign path v => path ≠ [] ∧ path.length < limit ∧ Toml.Plain (limit - 1) v
  | .table path | .element path => path ≠ [] ∧ path.length < limit

section Lines

variable {path : List String} {rest : List Char}

theorem path?_pathText_append (hne : path ≠ []) (hlt : path.length < limit)
    (hrest : EndsKey rest) (hdot : (skipGap rest).head? ≠ some '.') :
    path? (pathText path ++ rest) = some (path, skipGap rest) :=
  keys?_pathText_append hne (Nat.le_sub_one_of_lt hlt) hrest hdot

/-- A bracket ends the path of a header. -/
theorem path?_header (hne : path ≠ []) (hlt : path.length < limit) :
    path? (pathText path ++ ']' :: rest) = some (path, ']' :: rest) := by
  have hgap : skipGap (']' :: rest) = ']' :: rest := (solid_cons (by simp) rest).skipGap_eq
  have hread : path? (pathText path ++ ']' :: rest) = some (path, skipGap (']' :: rest)) :=
    path?_pathText_append hne hlt ⟨']', rest, rfl, by decide, by decide, by decide⟩
      (by rw [hgap]; simp)
  rwa [hgap] at hread

theorem statement?_element (hne : path ≠ []) (hlt : path.length < limit) :
    statement? ('[' :: '[' :: (pathText path ++ ']' :: ']' :: rest)) =
      some (.element path, rest) := by
  simp [statement?, path?_header hne hlt, after?]

theorem statement?_table (hne : path ≠ []) (hlt : path.length < limit) :
    statement? ('[' :: (pathText path ++ ']' :: rest)) = some (.table path, rest) := by
  obtain ⟨c, s, hp, hbracket⟩ := pathText_eq_cons_of_ne hne
  have hread : path? (c :: (s ++ ']' :: rest)) = some (path, ']' :: rest) := by
    rw [← List.cons_append, ← hp]
    exact path?_header hne hlt
  rw [hp, List.cons_append, statement?.eq_def]
  split
  · next h => exact absurd (List.head_eq_of_cons_eq (List.tail_eq_of_cons_eq h)) hbracket
  · next h =>
    rw [← List.tail_eq_of_cons_eq h, hread]
    simp [after?]
  · next h => exact absurd rfl (h _)

theorem statement?_assign {v : Value} (hne : path ≠ []) (hlt : path.length < limit)
    (hv : Plain (limit - 1) v) (hrest : EndsValue rest) :
    statement? (pathText path ++ (' ' :: '=' :: ' ' :: (v.text ++ rest))) =
      some (.assign path v, rest) := by
  obtain ⟨c, s, hp, hbracket⟩ := pathText_eq_cons_of_ne hne
  have hpath : path? (pathText path ++ (' ' :: '=' :: ' ' :: (v.text ++ rest))) =
      some (path, '=' :: ' ' :: (v.text ++ rest)) :=
    path?_pathText_append hne hlt ⟨' ', _, rfl, by decide, by decide, by decide⟩
      (by simp [skipGap, isGap])
  have hgap : skipGap (' ' :: (v.text ++ rest)) = v.text ++ rest := (hv.solid.append rest).skipGap_eq
  have hread : assignment? (value? (limit - 1))
      (pathText path ++ (' ' :: '=' :: ' ' :: (v.text ++ rest))) = some ((path, v), rest) := by
    simp [assignment?, hpath, after?, hgap, hv.value?_append hrest]
  rw [hp, List.cons_append] at hread ⊢
  rw [statement?.eq_def]
  split
  · next h => exact absurd (List.head_eq_of_cons_eq h) hbracket
  · next h => exact absurd (List.head_eq_of_cons_eq h) hbracket
  · rw [hread]
    rfl

theorem statements?_blank (n : Nat) (s : List Char) :
    statements? (n + 1) ('\n' :: s) = statements? n s := by
  rfl

theorem statements?_line {s : List Char} {x : Statement} (hs : Solid s)
    (hx : statement? s = some (x, '\n' :: rest)) (n : Nat) :
    statements? (n + 1) s = (statements? n rest).map (x :: ·) := by
  have hne : s.isEmpty = false := by
    obtain ⟨c, t, rfl, -⟩ := hs
    rfl
  have hend : lineEnd? ('\n' :: rest) = some rest := rfl
  rw [statements?, hs.lineEnd?_eq, hs.skipGap_eq, hx]
  simp only [hne, hend, Option.bind_eq_bind, Option.bind_some, Option.map_eq_bind]
  rfl

theorem statements?_cons {x : Statement} (hx : x.Plain) {n : Nat} {s : List Char}
    (hn : (x.text ++ s).length ≤ n) :
    ∃ m, s.length ≤ m ∧ statements? n (x.text ++ s) = (statements? m s).map (x :: ·) := by
  cases x with
  | assign path v =>
    obtain ⟨hne, hlt, hv⟩ := hx
    have htext : (Statement.assign path v).text ++ s =
        pathText path ++ (' ' :: '=' :: ' ' :: (v.text ++ '\n' :: s)) := by
      simp [Statement.text]
    rw [htext] at hn ⊢
    simp only [List.length_append, List.length_cons] at hn
    obtain ⟨n, rfl⟩ := Nat.exists_eq_succ_of_ne_zero (n := n) (by omega)
    refine ⟨n, by omega, statements?_line ((solid_pathText hne).append _) ?_ n⟩
    exact statement?_assign hne hlt hv (endsValue_cons (Or.inr (Or.inr rfl)) s)
  | table path =>
    obtain ⟨hne, hlt⟩ := hx
    have htext : (Statement.table path).text ++ s =
        '\n' :: '[' :: (pathText path ++ ']' :: '\n' :: s) := by
      simp [Statement.text]
    rw [htext] at hn ⊢
    simp only [List.length_append, List.length_cons] at hn
    obtain ⟨n, rfl⟩ : ∃ m, n = m + 2 := ⟨n - 2, by omega⟩
    refine ⟨n, by omega, ?_⟩
    rw [statements?_blank]
    exact statements?_line (solid_cons (by simp) _) (statement?_table hne hlt) n
  | element path =>
    obtain ⟨hne, hlt⟩ := hx
    have htext : (Statement.element path).text ++ s =
        '\n' :: '[' :: '[' :: (pathText path ++ ']' :: ']' :: '\n' :: s) := by
      simp [Statement.text]
    rw [htext] at hn ⊢
    simp only [List.length_append, List.length_cons] at hn
    obtain ⟨n, rfl⟩ : ∃ m, n = m + 2 := ⟨n - 2, by omega⟩
    refine ⟨n, by omega, ?_⟩
    rw [statements?_blank]
    exact statements?_line (solid_cons (by simp) _) (statement?_element hne hlt) n

/-- Every line that is printed is read. -/
theorem statements?_texts {xs : List Statement} (h : ∀ x ∈ xs, x.Plain) {n : Nat}
    (hn : (xs.flatMap Statement.text).length ≤ n) :
    statements? n (xs.flatMap Statement.text) = some xs := by
  induction xs generalizing n with
  | nil => cases n <;> rfl
  | cons x xs ih =>
    rw [List.forall_mem_cons] at h
    rw [List.flatMap_cons] at hn ⊢
    obtain ⟨m, hm, hread⟩ := statements?_cons h.1 hn
    rw [hread, ih h.2 hm]
    rfl

end Lines

theorem dropMark_text {x : Statement} (hx : x.Plain) (s : List Char) :
    dropMark (x.text ++ s) = x.text ++ s := by
  obtain ⟨c, t, ht, hc⟩ : ∃ c t, x.text = c :: t ∧ c ≠ '\uFEFF' := by
    cases x with
    | assign path v =>
      obtain ⟨c, t, hp, hc⟩ := pathText_eq_cons hx.1
      refine ⟨c, _, by rw [Statement.text, hp]; rfl, ?_⟩
      rintro rfl
      exact absurd hc (by decide)
    | table path | element path => exact ⟨'\n', _, rfl, by decide⟩
  rw [ht, List.cons_append, dropMark.eq_def]
  split
  · next h => exact absurd (List.head_eq_of_cons_eq h) hc
  · rfl

/-- A printed document says what its lines say. -/
theorem read?_print {xs : List Statement} (h : ∀ x ∈ xs, x.Plain) :
    read? (print xs) = membersOf? xs := by
  have hmark : dropMark (xs.flatMap Statement.text) = xs.flatMap Statement.text := by
    cases xs with
    | nil => rfl
    | cons x xs => exact dropMark_text (h x List.mem_cons_self) _
  rw [read?, print, String.toList_ofList, hmark, statements?_texts h (Nat.le_refl _),
    Option.bind_some]

end PodTarget.Toml
