import PodTarget.Json.Reader

/-! The grammar of JSON: which texts stand for a document. A literal stands for
the UTF-16 units and code points in it, and a document without a value is one
whose number or string has none. The reader finds the document of every text
and stops right after it, whatever follows. -/

namespace PodTarget.Json

open PodTarget.Number

def Blank (s : List Char) : Prop := ∀ c ∈ s, isSpace c = true

def Digits (s : List Char) : Prop := s ≠ [] ∧ ∀ c ∈ s, c.isDigit = true

inductive FractionText : Option (List Char) → List Char → Prop
  | absent : FractionText none []
  | point {ds : List Char} (h : Digits ds) : FractionText (some ds) ('.' :: ds)

/-- The sign of an exponent, and whether it makes it negative. -/
inductive SignText : Bool → List Char → Prop
  | absent : SignText false []
  | plus : SignText false ['+']
  | minus : SignText true ['-']

inductive ExponentText : Option Int → List Char → Prop
  | absent : ExponentText none []
  | letter {e : Char} {negative : Bool} {sgn ds : List Char} (he : e = 'e' ∨ e = 'E')
      (hs : SignText negative sgn) (h : Digits ds) :
      ExponentText (some (if negative then -(digitsValue ds : Int) else digitsValue ds))
        (e :: (sgn ++ ds))

/-- A zero in front is the only digit before the point. -/
inductive NumeralText : Numeral → List Char → Prop
  | digits {negative : Bool} {whole f e : List Char} {fraction : Option (List Char)}
      {exponent : Option Int} (hw : Digits whole)
      (hz : whole.head? = some '0' → whole.length = 1) (hf : FractionText fraction f)
      (he : ExponentText exponent e) :
      NumeralText ⟨negative, whole, fraction, exponent⟩
        ((if negative then ['-'] else []) ++ (whole ++ (f ++ e)))

/-- What stands between the quotes of a literal, the closing one with it. -/
inductive Literal : List Nat → List Char → Prop
  | close : Literal [] ['"']
  | plain {c : Char} {us : List Nat} {s : List Char} (hc : 0x20 ≤ c.toNat) (hq : c ≠ '"')
      (hb : c ≠ '\\') (hs : Literal us s) : Literal (c.toNat :: us) (c :: s)
  | letter {c e : Char} {us : List Nat} {s : List Char} (he : (c, e) ∈ ('/', '/') :: shortEscapes)
      (hs : Literal us s) : Literal (c.toNat :: us) ('\\' :: e :: s)
  | unit {u : Nat} {a b c d : Char} {us : List Nat} {s : List Char}
      (hu : Text.hexNumber? [a, b, c, d] = some u) (hs : Literal us s) :
      Literal (u :: us) ('\\' :: 'u' :: a :: b :: c :: d :: s)

/-- The text of a literal, where every surrogate in it has its other half. -/
def literalText? (us : List Nat) : Option String := (ofUnits? us).map .ofList

mutual

/-- A document and a text for it, without white space around it. -/
inductive Written : Document → List Char → Prop
  | null : Written .null ['n', 'u', 'l', 'l']
  | yes : Written (.boolean true) ['t', 'r', 'u', 'e']
  | no : Written (.boolean false) ['f', 'a', 'l', 's', 'e']
  | number {n : Numeral} {s : List Char} (h : NumeralText n s) :
      Written (n.value?.elim .valueless .number) s
  | string {us : List Nat} {s : List Char} (h : Literal us s) :
      Written ((literalText? us).elim .valueless .string) ('"' :: s)
  | noItems {w : List Char} (hw : Blank w) : Written (.array []) ('[' :: (w ++ [']']))
  | array {ds : List Document} {s : List Char} (h : WrittenItems ds s) :
      Written (.array ds) ('[' :: (s ++ [']']))
  | noMembers {w : List Char} (hw : Blank w) : Written (.object []) ('\x7b' :: (w ++ ['\x7d']))
  | object {ms : List (Option String × Document)} {s : List Char} (h : WrittenMembers ms s) :
      Written (.object ms) ('\x7b' :: (s ++ ['\x7d']))

/-- The same with white space around it. -/
inductive TextOf : Document → List Char → Prop
  | padded {d : Document} {w s v : List Char} (hw : Blank w) (h : Written d s) (hv : Blank v) :
      TextOf d (w ++ (s ++ v))

inductive WrittenItems : List Document → List Char → Prop
  | last {d : Document} {s : List Char} (h : TextOf d s) : WrittenItems [d] s
  | cons {d : Document} {ds : List Document} {s t : List Char} (h : TextOf d s)
      (ht : WrittenItems ds t) : WrittenItems (d :: ds) (s ++ ',' :: t)

inductive WrittenMember : Option String × Document → List Char → Prop
  | keyed {us : List Nat} {d : Document} {w k v s : List Char} (hw : Blank w) (hk : Literal us k)
      (hv : Blank v) (h : TextOf d s) :
      WrittenMember (literalText? us, d) (w ++ '"' :: (k ++ (v ++ ':' :: s)))

inductive WrittenMembers : List (Option String × Document) → List Char → Prop
  | last {m : Option String × Document} {s : List Char} (h : WrittenMember m s) :
      WrittenMembers [m] s
  | cons {m : Option String × Document} {ms : List (Option String × Document)} {s t : List Char}
      (h : WrittenMember m s) (ht : WrittenMembers ms t) : WrittenMembers (m :: ms) (s ++ ',' :: t)

end

theorem TextOf.of_written {d : Document} {s : List Char} (h : Written d s) : TextOf d s := by
  have hpadded := TextOf.padded (w := []) (v := []) nofun h nofun
  rwa [List.nil_append, List.append_nil] at hpadded

/-! ### Reading -/

section Scanners

variable {s rest : List Char}

theorem skip_append {w : List Char} (hw : Blank w) (s : List Char) : skip (w ++ s) = skip s := by
  rw [skip, skip, List.dropWhile_append_of_pos hw]

theorem skip_cons {c : Char} (hc : isSpace c = false) (s : List Char) : skip (c :: s) = c :: s := by
  simp [skip, hc]

/-- Nothing that could go on with a number follows. -/
def Ends (rest : List Char) : Prop :=
  ∀ c ∈ rest.head?, isSpace c = true ∨ c = ',' ∨ c = ']' ∨ c = '\x7d'

theorem digits?_append {ds : List Char} (h : Digits ds)
    (hrest : ∀ c ∈ rest.head?, c.isDigit = false) : digits? (ds ++ rest) = some (ds, rest) := by
  have htake : (ds ++ rest).takeWhile Char.isDigit = ds := by
    rw [List.takeWhile_append_of_pos h.2]
    cases rest with
    | nil => simp
    | cons c rest => simp [hrest c rfl]
  have hdrop : (ds ++ rest).dropWhile Char.isDigit = rest := by
    rw [List.dropWhile_append_of_pos h.2]
    cases rest with
    | nil => simp
    | cons c rest => simp [hrest c rfl]
  rw [digits?, htake, hdrop]
  cases ds with
  | nil => exact absurd rfl h.1
  | cons d ds => rfl

/-- Nothing that could go on with a number. -/
def Stops (rest : List Char) : Prop :=
  ∀ c ∈ rest.head?, c.isDigit = false ∧ c ≠ '.' ∧ c ≠ 'e' ∧ c ≠ 'E'

theorem Ends.stops (h : Ends rest) : Stops rest := by
  intro c hc
  rcases h c hc with hc | rfl | rfl | rfl
  · simp only [isSpace, Bool.or_eq_true, decide_eq_true_eq] at hc
    rcases hc with ((rfl | rfl) | rfl) | rfl <;> decide
  all_goals decide

theorem Digits.exists_cons {ds : List Char} (h : Digits ds) :
    ∃ d ds', ds = d :: ds' ∧ d.isDigit = true := by
  cases ds with
  | nil => exact absurd rfl h.1
  | cons d ds => exact ⟨d, ds, rfl, h.2 d List.mem_cons_self⟩

theorem sign_append {negative : Bool} {sgn ds : List Char} (hs : SignText negative sgn)
    (h : Digits ds) : sign (sgn ++ (ds ++ rest)) = (negative, ds ++ rest) := by
  cases hs with
  | plus | minus => rfl
  | absent =>
    obtain ⟨d, ds, rfl, hd⟩ := h.exists_cons
    have hplus : d ≠ '+' := by rintro rfl; exact absurd hd (by decide)
    have hminus : d ≠ '-' := by rintro rfl; exact absurd hd (by decide)
    simp [sign, hplus, hminus]

theorem exponent?_append {x : Option Int} {e : List Char} (h : ExponentText x e)
    (hrest : Stops rest) : exponent? (e ++ rest) = some (x, rest) := by
  cases h with
  | absent =>
    cases rest with
    | nil => rfl
    | cons c rest =>
      obtain ⟨-, -, he, hE⟩ := hrest c rfl
      simp [exponent?, he, hE]
  | letter he hs hds =>
    have hdigits := digits?_append hds fun c hc => (hrest c hc).1
    rw [List.cons_append, List.append_assoc, exponent?, if_pos he, sign_append hs hds]
    simp [hdigits]

theorem fraction?_append {x : Option (List Char)} {f : List Char} (h : FractionText x f)
    (hrest : ∀ c ∈ rest.head?, c.isDigit = false ∧ c ≠ '.') :
    fraction? (f ++ rest) = some (x, rest) := by
  cases h with
  | absent =>
    cases rest with
    | nil => rfl
    | cons c rest => simp [fraction?, (hrest c rfl).2]
  | point hds =>
    have hdigits := digits?_append hds fun c hc => (hrest c hc).1
    simp [fraction?, hdigits]

theorem ExponentText.head_append {x : Option Int} {e : List Char} (h : ExponentText x e)
    (hrest : Stops rest) : ∀ c ∈ (e ++ rest).head?, c.isDigit = false ∧ c ≠ '.' := by
  cases h with
  | absent => exact fun c hc => ⟨(hrest c hc).1, (hrest c hc).2.1⟩
  | letter he =>
    intro c hc
    obtain rfl := Option.some.inj hc
    rcases he with rfl | rfl <;> decide

theorem FractionText.head_append {x : Option (List Char)} {f : List Char} (h : FractionText x f)
    (hrest : ∀ c ∈ rest.head?, c.isDigit = false) :
    ∀ c ∈ (f ++ rest).head?, c.isDigit = false := by
  cases h with
  | absent => exact hrest
  | point =>
    intro c hc
    obtain rfl := Option.some.inj hc
    decide

/-- A number starts with a minus or a digit. -/
theorem NumeralText.exists_cons {n : Numeral} (h : NumeralText n s) :
    ∃ c s', s = c :: s' ∧ (c = '-' ∨ c.isDigit = true) := by
  cases h with
  | @digits negative _ f e _ _ hw =>
    obtain ⟨d, ds, rfl, hd⟩ := hw.exists_cons
    cases negative with
    | true => exact ⟨'-', _, rfl, .inl rfl⟩
    | false => exact ⟨d, _, rfl, .inr hd⟩

theorem numeral?_append {n : Numeral} (h : NumeralText n s) (hrest : Stops rest) :
    numeral? (s ++ rest) = some (n, rest) := by
  cases h with
  | @digits negative whole f e fraction exponent hw hz hf he =>
    have hexp := exponent?_append he hrest
    have hfrac := fraction?_append hf (he.head_append hrest)
    have hwhole := digits?_append hw
      (hf.head_append fun c hc => (he.head_append hrest c hc).1)
    simp only [List.append_assoc]
    cases negative with
    | true => simpa [numeral?, hwhole, hfrac, hexp] using hz
    | false =>
      obtain ⟨d, ds, rfl, hd⟩ := hw.exists_cons
      have hminus : d ≠ '-' := by rintro rfl; exact absurd hd (by decide)
      rw [List.cons_append] at hwhole
      simpa [numeral?, hminus, hwhole, hfrac, hexp] using hz

theorem unescape?_of_mem {c e : Char} (h : (c, e) ∈ ('/', '/') :: shortEscapes) :
    unescape? e = some c ∧ e ≠ 'u' := by
  have every : ∀ p ∈ ('/', '/') :: shortEscapes, unescape? p.2 = some p.1 ∧ p.2 ≠ 'u' := by decide
  exact every _ h

theorem units?_append {us : List Nat} (h : Literal us s) (rest : List Char) :
    units? (s ++ rest) = some (us, rest) := by
  induction h with
  | close => rfl
  | plain hc hq hb _ ih => simp [units?, hb, ih, Nat.not_lt.2 hc]
  | letter he _ ih =>
    obtain ⟨hread, hunit⟩ := unescape?_of_mem he
    simp [units?, hread, hunit, ih]
  | unit hu _ ih => simp [units?, hu, ih]

end Scanners

section Readers

variable {s rest : List Char} {n : Nat}

theorem text?_append {us : List Nat} (h : Literal us s) (rest : List Char) :
    text? (s ++ rest) = some (literalText? us, rest) := by
  simp [text?, units?_append h, literalText?]

theorem readNumber_append {n : Numeral} (h : NumeralText n s) (hrest : Ends rest) :
    readScalar (s ++ rest) = (n.value?.elim .valueless .number, some rest) := by
  have hnumeral := numeral?_append h hrest.stops
  obtain ⟨c, s, rfl, hc⟩ := h.exists_cons
  have hn : c ≠ 'n' := by rintro rfl; exact absurd hc (by decide)
  have ht : c ≠ 't' := by rintro rfl; exact absurd hc (by decide)
  have hf : c ≠ 'f' := by rintro rfl; exact absurd hc (by decide)
  rw [List.cons_append] at hnumeral ⊢
  simp [readScalar, readNumber, hn, ht, hf, hnumeral]

end Readers

theorem ends_blank_append {w rest : List Char} (hw : Blank w) (hrest : Ends rest) :
    Ends (w ++ rest) := by
  cases w with
  | nil => exact hrest
  | cons c w =>
    intro c' hc
    obtain rfl := Option.some.inj hc
    exact .inl (hw c List.mem_cons_self)

theorem ends_cons {c : Char} (h : c = ',' ∨ c = ']' ∨ c = '\x7d') (rest : List Char) :
    Ends (c :: rest) := by
  intro c' hc
  obtain rfl := Option.some.inj hc
  exact .inr h

/-- A document starts with a character that is neither white space nor a closing
bracket. -/
theorem Written.exists_cons {d : Document} {s : List Char} (h : Written d s) :
    ∃ c s', s = c :: s' ∧ isSpace c = false ∧ c ≠ ']' := by
  cases h with
  | number h =>
    obtain ⟨c, s, rfl, hc⟩ := h.exists_cons
    refine ⟨c, s, rfl, ?_, by rintro rfl; exact absurd hc (by decide)⟩
    cases hspace : isSpace c with
    | false => rfl
    | true =>
      simp only [isSpace, Bool.or_eq_true, decide_eq_true_eq] at hspace
      rcases hspace with ((rfl | rfl) | rfl) | rfl <;> exact absurd hc (by decide)
  | _ => exact ⟨_, _, rfl, by decide, by decide⟩

theorem TextOf.exists_skip {d : Document} {s : List Char} (h : TextOf d s) (rest : List Char) :
    ∃ c s', skip (s ++ rest) = c :: s' ∧ c ≠ ']' := by
  cases h with
  | @padded _ w _ v hw h =>
    obtain ⟨c, s, rfl, hc, hb⟩ := h.exists_cons
    refine ⟨c, s ++ (v ++ rest), ?_, hb⟩
    rw [List.append_assoc, skip_append hw, List.append_assoc, List.cons_append, skip_cons hc]

theorem WrittenItems.exists_skip {ds : List Document} {s : List Char} (h : WrittenItems ds s)
    (rest : List Char) : ∃ c s', skip (s ++ rest) = c :: s' ∧ c ≠ ']' := by
  cases h with
  | last h => exact h.exists_skip rest
  | cons h => rw [List.append_assoc]; exact h.exists_skip _

theorem WrittenMembers.exists_skip {ms : List (Option String × Document)} {s : List Char}
    (h : WrittenMembers ms s) (rest : List Char) : ∃ s', skip (s ++ rest) = '"' :: s' := by
  have member {m : Option String × Document} {s : List Char} (h : WrittenMember m s)
      (rest : List Char) : ∃ s', skip (s ++ rest) = '"' :: s' := by
    cases h with
    | @keyed us d w k v s hw =>
      refine ⟨k ++ (v ++ ':' :: s) ++ rest, ?_⟩
      rw [List.append_assoc, skip_append hw, List.cons_append, skip_cons (by decide)]
  cases h with
  | last h => exact member h rest
  | cons h => rw [List.append_assoc]; exact member h _

theorem length_pos_of_exists_skip {s : List Char}
    (h : ∀ rest, ∃ c s', skip (s ++ rest) = c :: s') : 0 < s.length := by
  obtain ⟨c, s', hs⟩ := h []
  cases s with
  | nil => simp [skip] at hs
  | cons => simp

/-- What is read after white space where neither a literal nor a bracket opens. -/
theorem readValue_scalar {c : Char} {w s : List Char} {n : Nat} (hw : Blank w)
    (hc : isSpace c = false) (hq : c ≠ '"') (hb : c ≠ '[') (ho : c ≠ '\x7b') :
    readValue (n + 1) (w ++ c :: s) = readScalar (c :: s) := by
  rw [readValue, skip_append hw, skip_cons hc]
  split
  · simp_all
  · simp_all
  · simp_all
  · rfl

mutual

theorem Written.read {d : Document} {s : List Char} (h : Written d s) {w rest : List Char} {n : Nat}
    (hw : Blank w) (hrest : Ends rest) (hn : 2 * s.length ≤ n + 1) :
    readValue n (w ++ (s ++ rest)) = (d, some rest) := by
  match n, h with
  | 0, h =>
    obtain ⟨c, s, rfl, -⟩ := h.exists_cons
    rw [List.length_cons] at hn
    omega
  | n + 1, .null => exact readValue_scalar hw (by decide) (by decide) (by decide) (by decide)
  | n + 1, .yes => exact readValue_scalar hw (by decide) (by decide) (by decide) (by decide)
  | n + 1, .no => exact readValue_scalar hw (by decide) (by decide) (by decide) (by decide)
  | n + 1, .number h =>
    have hread := readNumber_append h hrest
    obtain ⟨c, s, hs, hspace, -⟩ := (Written.number h).exists_cons
    obtain ⟨c', s', hs', hc⟩ := h.exists_cons
    obtain ⟨rfl, rfl⟩ : c = c' ∧ s = s' := List.cons.inj (hs.symm.trans hs')
    rw [hs, List.cons_append] at hread ⊢
    rw [readValue_scalar hw hspace, hread]
    all_goals rintro rfl; exact absurd hc (by decide)
  | n + 1, .string h =>
    rw [readValue, skip_append hw, List.cons_append, skip_cons (by decide)]
    simp only [text?_append h]
  | n + 1, .noItems hw' =>
    rw [readValue, skip_append hw, List.cons_append, skip_cons (by decide), List.append_assoc]
    simp only [skip_append hw']
    rfl
  | n + 1, .array h =>
    rw [List.length_cons, List.length_append, List.length_singleton] at hn
    have hitems := h.read (n := n) rest (by omega)
    obtain ⟨c, u, hskip, hc⟩ := h.exists_skip (']' :: rest)
    rw [readValue, skip_append hw, List.cons_append, skip_cons (by decide), List.append_assoc]
    simp only [List.singleton_append, hskip, hitems]
    split
    · simp_all
    · rfl
  | n + 1, .noMembers hw' =>
    rw [readValue, skip_append hw, List.cons_append, skip_cons (by decide), List.append_assoc]
    simp only [skip_append hw']
    rfl
  | n + 1, .object h =>
    rw [List.length_cons, List.length_append, List.length_singleton] at hn
    have hmembers := h.read (n := n) rest (by omega)
    obtain ⟨u, hskip⟩ := h.exists_skip ('\x7d' :: rest)
    rw [readValue, skip_append hw, List.cons_append, skip_cons (by decide), List.append_assoc]
    simp only [List.singleton_append, hskip, hmembers]
    rfl

theorem TextOf.read {d : Document} {s : List Char} (h : TextOf d s) {rest : List Char} {n : Nat}
    (hrest : Ends rest) (hn : 2 * s.length ≤ n + 1) :
    ∃ r, readValue n (s ++ rest) = (d, some r) ∧ skip r = skip rest := by
  match h with
  | .padded (v := v) hw h hv =>
    simp only [List.length_append] at hn
    simp only [List.append_assoc]
    exact ⟨v ++ rest, h.read hw (ends_blank_append hv hrest) (by omega), skip_append hv rest⟩

theorem WrittenItems.read {ds : List Document} {s : List Char} (h : WrittenItems ds s)
    (rest : List Char) {n : Nat} (hn : 2 * s.length ≤ n) :
    readItems n (s ++ ']' :: rest) = (ds, some rest) := by
  match n, h with
  | 0, h =>
    have hpos := length_pos_of_exists_skip fun rest =>
      let ⟨c, s', hs, _⟩ := h.exists_skip rest
      ⟨c, s', hs⟩
    omega
  | n + 1, .last h =>
    obtain ⟨r, hread, hr⟩ := h.read (n := n) (ends_cons (.inr (.inl rfl)) rest) hn
    rw [skip_cons (by decide)] at hr
    simp only [readItems, hread, hr]
  | n + 1, .cons (t := t) h ht =>
    rw [List.length_append, List.length_cons] at hn
    obtain ⟨r, hread, hr⟩ := h.read (n := n) (ends_cons (.inl rfl) (t ++ ']' :: rest)) (by omega)
    have hitems := ht.read (n := n) rest (by omega)
    rw [skip_cons (by decide)] at hr
    simp only [List.append_assoc, List.cons_append, readItems, hread, hr, hitems]

theorem WrittenMembers.read {ms : List (Option String × Document)} {s : List Char}
    (h : WrittenMembers ms s) (rest : List Char) {n : Nat} (hn : 2 * s.length ≤ n) :
    readMembers n (s ++ '\x7d' :: rest) = (ms, some rest) := by
  match n, h with
  | 0, h =>
    have hpos := length_pos_of_exists_skip fun rest => ⟨'"', h.exists_skip rest⟩
    omega
  | n + 1, .last (.keyed hw hk hv h) =>
    simp only [List.length_append, List.length_cons] at hn
    obtain ⟨r, hread, hr⟩ := h.read (n := n) (ends_cons (.inr (.inr rfl)) rest) (by omega)
    rw [skip_cons (by decide)] at hr
    simp only [List.append_assoc, List.cons_append, readMembers, skip_append hw,
      skip_cons (c := '"') (by decide), text?_append hk, skip_append hv,
      skip_cons (c := ':') (by decide), hread, hr]
  | n + 1, .cons (t := t) (.keyed hw hk hv h) ht =>
    simp only [List.length_append, List.length_cons] at hn
    obtain ⟨r, hread, hr⟩ :=
      h.read (n := n) (ends_cons (.inl rfl) (t ++ '\x7d' :: rest)) (by omega)
    have hmembers := ht.read (n := n) rest (by omega)
    rw [skip_cons (by decide)] at hr
    simp only [List.append_assoc, List.cons_append, readMembers, skip_append hw,
      skip_cons (c := '"') (by decide), text?_append hk, skip_append hv,
      skip_cons (c := ':') (by decide), hread, hr, hmembers]

end

/-- The document of a text is what the reader makes of it. -/
theorem read_of_textOf {d : Document} {s : String} (h : TextOf d s.toList) :
    read s = (d, true) := by
  have hends : Ends [] := nofun
  obtain ⟨r, hread, hr⟩ := h.read (n := 2 * s.toList.length + 2) hends (by omega)
  rw [List.append_nil] at hread
  rw [read, hread]
  simp only [Option.elim_some, hr]
  rfl

mutual

theorem Written.whole {d : Document} {s : List Char} : Written d s → d.whole = true
  | .null | .yes | .no | .noItems _ | .noMembers _ => rfl
  | .number (n := n) _ => by cases n.value? <;> rfl
  | @Written.string us _ _ => by cases literalText? us <;> rfl
  | .array h => by
    rw [Document.whole]
    exact h.whole
  | .object h => by
    rw [Document.whole]
    exact h.whole

/-- The document of a text does not break off. -/
theorem TextOf.whole {d : Document} {s : List Char} : TextOf d s → d.whole = true
  | .padded _ h _ => h.whole

theorem WrittenItems.whole {ds : List Document} {s : List Char} :
    WrittenItems ds s → Document.allWhole ds = true
  | .last h => by rw [Document.allWhole, h.whole, Document.allWhole, Bool.and_self]
  | .cons h ht => by rw [Document.allWhole, h.whole, ht.whole, Bool.and_self]

theorem WrittenMembers.whole {ms : List (Option String × Document)} {s : List Char} :
    WrittenMembers ms s → Document.membersWhole ms = true
  | .last (.keyed _ _ _ h) => by
    rw [Document.membersWhole, h.whole, Document.membersWhole, Bool.and_self]
  | .cons (.keyed _ _ _ h) ht => by rw [Document.membersWhole, h.whole, ht.whole, Bool.and_self]

end

end PodTarget.Json
