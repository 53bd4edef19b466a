import PodTarget.Collections
import PodTarget.Json.Printer
import PodTarget.Proofs.JsonGrammar
import PodTarget.Proofs.Nesting

/-! What is printed is a text of the document it was printed from, for the
documents made of texts, truth values and null. The closure lemmas say so for
arrays and objects, at every level of indentation. -/

namespace PodTarget.Json

open Text

/-- Printed at any level, the document is a text of itself. -/
def Printed (d : Document) : Prop := ∀ level, Written d (d.text level)

theorem printed_null : Printed .null := fun _ => .null

theorem printed_boolean (b : Bool) : Printed (.boolean b) := fun _ =>
  match b with
  | true => .yes
  | false => .no

section Literals

variable {c : Char} {us : List Nat} {s : List Char}

theorem ne_of_lookup_eq_none (h : shortEscapes.lookup c = none) : c ≠ '"' ∧ c ≠ '\\' := by
  constructor
  · rintro rfl; exact absurd h (by decide)
  · rintro rfl; exact absurd h (by decide)

theorem hexNumber?_digits {n : Nat} (h : n < 256) :
    hexNumber? ['0', '0', hexDigit (n / 16), hexDigit (n % 16)] = some n := by
  have hhigh := hexValue?_hexDigit (n := n / 16) (by omega)
  have hlow := hexValue?_hexDigit (n := n % 16) (by omega)
  have hzero : hexValue? '0' = some 0 := by decide
  simp only [hexNumber?, List.foldlM_cons, List.foldlM_nil, hhigh, hlow, hzero, Option.map_some,
    bind, Option.bind_some, pure]
  congr 1
  omega

theorem literal_escape_append (h : Literal us s) (c : Char) :
    Literal (c.toNat :: us) (escape c ++ s) := by
  rw [escape]
  split
  next e he => exact .letter (List.mem_cons_of_mem _ (mem_of_lookup_eq_some he)) h
  next hnone =>
    split
    next hcontrol => exact .unit (hexNumber?_digits (by omega)) h
    next hcontrol =>
      obtain ⟨hq, hb⟩ := ne_of_lookup_eq_none hnone
      exact .plain (Nat.not_lt.1 hcontrol) hq hb h

theorem literal_escapes (s : List Char) :
    Literal (s.map Char.toNat) (s.flatMap escape ++ ['"']) := by
  induction s with
  | nil => exact .close
  | cons c s ih =>
    rw [List.flatMap_cons, List.append_assoc]
    exact literal_escape_append ih c

theorem not_surrogate (c : Char) : isHigh c.toNat = false ∧ isLow c.toNat = false := by
  have hvalid : c.toNat < 0xD800 ∨ 0xDFFF < c.toNat ∧ c.toNat < 0x110000 := c.valid
  simp only [isHigh, isLow, Bool.and_eq_false_iff, decide_eq_false_iff_not]
  omega

/-- No character is half of a surrogate pair. -/
theorem ofUnits?_map_toNat (s : List Char) : ofUnits? (s.map Char.toNat) = some s := by
  induction s with
  | nil => rfl
  | cons c s ih =>
    obtain ⟨hhigh, hlow⟩ := not_surrogate c
    cases s with
    | nil => simp [ofUnits?, hhigh, hlow]
    | cons c' s =>
      rw [List.map_cons, List.map_cons, ofUnits?, hhigh, hlow]
      rw [List.map_cons] at ih
      simp [ih]

theorem literalText?_map_toNat (s : String) : literalText? (s.toList.map Char.toNat) = some s := by
  rw [literalText?, ofUnits?_map_toNat, Option.map_some, String.ofList_toList]

end Literals

theorem printed_string (s : String) : Printed (.string s) := by
  intro level
  have h := Written.string (literal_escapes s.toList)
  rwa [literalText?_map_toNat] at h

theorem blank_newline (level : Nat) : Blank (newline level) := by
  intro c hc
  rcases List.mem_cons.1 hc with rfl | hc
  · decide
  · rw [List.eq_of_mem_replicate hc]
    decide

theorem itemTexts_eq_map (level : Nat) (ds : List Document) :
    itemTexts level ds = ds.map (·.text level) := by
  induction ds with
  | nil => rw [itemTexts, List.map_nil]
  | cons d ds ih => rw [itemTexts, ih, List.map_cons]

def memberText (level : Nat) (m : Option String × Document) : List Char :=
  quote (m.1.getD "").toList ++ (':' :: ' ' :: m.2.text level)

theorem memberTexts_eq_map (level : Nat) (ms : List (Option String × Document)) :
    memberTexts level ms = ms.map (memberText level) := by
  induction ms with
  | nil => rw [memberTexts, List.map_nil]
  | cons m ms ih => rw [memberTexts, ih, List.map_cons, memberText]

/-- The lines between the brackets, the closing one at its own level. -/
def lines (parts : List (List Char)) (level : Nat) : List Char :=
  ((parts.map (newline (level + 1) ++ ·)).intersperse [',']).flatten ++ newline level

theorem enclosed_cons (opening closing : Char) (p : List Char) (ps : List (List Char))
    (level : Nat) : enclosed opening closing (p :: ps) level =
      opening :: (lines (p :: ps) level ++ [closing]) := by
  simp [enclosed, lines]

theorem lines_singleton (p : List Char) (level : Nat) :
    lines [p] level = newline (level + 1) ++ (p ++ newline level) := by
  simp [lines]

theorem lines_cons_cons (p q : List Char) (ps : List (List Char)) (level : Nat) :
    lines (p :: q :: ps) level = (newline (level + 1) ++ p) ++ ',' :: lines (q :: ps) level := by
  simp [lines]

theorem textOf_line {d : Document} (h : Printed d) (level : Nat) :
    TextOf d (newline level ++ d.text level) := by
  have hpadded := TextOf.padded (v := []) (blank_newline level) (h level) nofun
  rwa [List.append_nil] at hpadded

theorem writtenItems_lines {d : Document} {ds : List Document} (h : ∀ e ∈ d :: ds, Printed e)
    (level : Nat) :
    WrittenItems (d :: ds) (lines ((d :: ds).map (·.text (level + 1))) level) := by
  induction ds generalizing d with
  | nil =>
    rw [List.map_cons, List.map_nil, lines_singleton]
    exact .last (.padded (blank_newline _) (h d List.mem_cons_self _) (blank_newline _))
  | cons e ds ih =>
    rw [List.forall_mem_cons] at h
    rw [List.map_cons, List.map_cons, lines_cons_cons]
    exact .cons (textOf_line h.1 _) (ih h.2)

theorem printed_array {ds : List Document} (h : ∀ d ∈ ds, Printed d) : Printed (.array ds) := by
  intro level
  rw [Document.text, itemTexts_eq_map]
  cases ds with
  | nil => exact .noItems (w := []) nofun
  | cons d ds =>
    rw [List.map_cons, enclosed_cons]
    exact .array (writtenItems_lines h level)

/-- The text of a member on its line, with white space after it. -/
theorem writtenMember_line {k : String} {d : Document} {w : List Char} (h : Printed d)
    (hw : Blank w) (level : Nat) : WrittenMember (some k, d)
      (newline level ++ (memberText level (some k, d) ++ w)) := by
  have hspace : Blank [' '] := fun c hc => by rw [List.mem_singleton.1 hc]; rfl
  have hmember := WrittenMember.keyed (v := []) (blank_newline level) (literal_escapes k.toList)
    nofun (.padded hspace (h level) hw)
  rw [literalText?_map_toNat] at hmember
  simpa [memberText, quote] using hmember

theorem writtenMembers_lines {m : Option String × Document}
    {ms : List (Option String × Document)} (hkeys : ∀ e ∈ m :: ms, e.1.isSome = true)
    (h : ∀ e ∈ m :: ms, Printed e.2) (level : Nat) :
    WrittenMembers (m :: ms) (lines ((m :: ms).map (memberText (level + 1))) level) := by
  induction ms generalizing m with
  | nil =>
    obtain ⟨k, d⟩ := m
    obtain ⟨k, rfl⟩ := Option.isSome_iff_exists.1 (hkeys _ List.mem_cons_self)
    rw [List.map_cons, List.map_nil, lines_singleton]
    exact .last (writtenMember_line (h _ List.mem_cons_self) (blank_newline _) _)
  | cons e ms ih =>
    obtain ⟨k, d⟩ := m
    obtain ⟨k, rfl⟩ := Option.isSome_iff_exists.1 (hkeys _ List.mem_cons_self)
    rw [List.forall_mem_cons] at hkeys h
    have hmember := writtenMember_line (k := k) (w := []) h.1 nofun (level + 1)
    rw [List.append_nil] at hmember
    rw [List.map_cons, List.map_cons, lines_cons_cons]
    exact .cons hmember (ih hkeys.2 h.2)

theorem printed_object {ms : List (Option String × Document)}
    (hkeys : ∀ m ∈ ms, m.1.isSome = true) (h : ∀ m ∈ ms, Printed m.2) :
    Printed (.object ms) := by
  intro level
  rw [Document.text, memberTexts_eq_map]
  cases ms with
  | nil => exact .noMembers (w := []) nofun
  | cons m ms =>
    rw [List.map_cons, enclosed_cons]
    exact .object (writtenMembers_lines hkeys h level)

/-- Made of texts, truth values and null. -/
inductive Plain : Document → Prop
  | null : Plain .null
  | boolean (b : Bool) : Plain (.boolean b)
  | string (s : String) : Plain (.string s)
  | array {ds : List Document} (h : ∀ d ∈ ds, Plain d) : Plain (.array ds)
  | object {ms : List (Option String × Document)} (hkeys : ∀ m ∈ ms, m.1.isSome = true)
      (h : ∀ m ∈ ms, Plain m.2) : Plain (.object ms)

theorem Plain.printed {d : Document} (h : Plain d) : Printed d := by
  induction h with
  | null => exact printed_null
  | boolean b => exact printed_boolean b
  | string s => exact printed_string s
  | array _ ih => exact printed_array ih
  | object hkeys _ ih => exact printed_object hkeys ih

theorem Plain.valued {d : Document} (h : Plain d) : d.valued = true := by
  induction h with
  | null | boolean | string => rfl
  | array _ ih => exact Document.valued_array_iff.2 ih
  | object hkeys _ ih => exact Document.valued_object_iff.2 fun m hm => ⟨hkeys m hm, ih m hm⟩

theorem Plain.ofStrings (l : List String) : Plain (.ofStrings l) := by
  refine .array fun d hd => ?_
  obtain ⟨s, -, rfl⟩ := List.mem_map.1 hd
  exact .string s

theorem Plain.ofMembers {ms : List (String × Document)} (h : ∀ m ∈ ms, Plain m.2) :
    Plain (.ofMembers ms) := by
  refine .object (fun m hm => ?_) fun m hm => ?_
  all_goals obtain ⟨⟨k, d⟩, he, rfl⟩ := List.mem_map.1 hm
  · rfl
  · exact h (k, d) he

theorem Printed.textOf {d : Document} (h : Printed d) : TextOf d d.print.toList := by
  rw [Document.print, String.toList_ofList]
  exact .of_written (h 0)

end PodTarget.Json
