import PodTarget.Proofs.JsonGrammar

/-! What the reader takes for a whole document is in the grammar. Each of its
parts stands in front of the rest that the part leaves, so the grammar and the
reader are about the same texts. -/

namespace PodTarget.Json

open PodTarget.Number

section Scanners

variable {s rest : List Char}

theorem exists_blank_of_skip {r : List Char} (h : skip s = r) : ∃ w, Blank w ∧ s = w ++ r := by
  refine ⟨s.takeWhile isSpace, List.all_eq_true.1 List.all_takeWhile, ?_⟩
  rw [← h, skip, List.takeWhile_append_dropWhile]

theorem digits_of_digits? {ds : List Char} (h : digits? s = some (ds, rest)) :
    Digits ds ∧ s = ds ++ rest := by
  rw [digits?] at h
  split at h
  · cases h
  · next hne =>
    obtain ⟨rfl, rfl⟩ := Prod.mk.inj (Option.some.inj h)
    exact ⟨⟨hne, List.all_eq_true.1 List.all_takeWhile⟩, List.takeWhile_append_dropWhile.symm⟩

theorem exists_signText {negative : Bool} {u : List Char} (h : sign s = (negative, u)) :
    ∃ sgn, SignText negative sgn ∧ s = sgn ++ u := by
  rw [sign.eq_def] at h
  split at h <;> obtain ⟨rfl, rfl⟩ := Prod.mk.inj h
  · exact ⟨['+'], .plus, rfl⟩
  · exact ⟨['-'], .minus, rfl⟩
  · exact ⟨[], .absent, rfl⟩

theorem exists_exponentText {x : Option Int} (h : exponent? s = some (x, rest)) :
    ∃ e, ExponentText x e ∧ s = e ++ rest := by
  rw [exponent?.eq_def] at h
  split at h
  · obtain ⟨rfl, rfl⟩ := Prod.mk.inj (Option.some.inj h)
    exact ⟨[], .absent, rfl⟩
  · next c s =>
    split at h
    · next hc =>
      obtain ⟨negative, u, hsign⟩ : ∃ negative u, sign s = (negative, u) := ⟨_, _, rfl⟩
      rw [hsign] at h
      obtain ⟨⟨ds, r⟩, hdigits, heq⟩ := Option.map_eq_some_iff.1 h
      obtain ⟨rfl, rfl⟩ := Prod.mk.inj heq
      obtain ⟨sgn, hsgn, rfl⟩ := exists_signText hsign
      obtain ⟨hds, rfl⟩ := digits_of_digits? hdigits
      refine ⟨c :: (sgn ++ ds), .letter hc hsgn hds, ?_⟩
      rw [List.cons_append, List.append_assoc]
    · obtain ⟨rfl, rfl⟩ := Prod.mk.inj (Option.some.inj h)
      exact ⟨[], .absent, rfl⟩

theorem exists_fractionText {x : Option (List Char)} (h : fraction? s = some (x, rest)) :
    ∃ f, FractionText x f ∧ s = f ++ rest := by
  rw [fraction?.eq_def] at h
  split at h
  · obtain ⟨⟨ds, r⟩, hdigits, heq⟩ := Option.map_eq_some_iff.1 h
    obtain ⟨rfl, rfl⟩ := Prod.mk.inj heq
    obtain ⟨hds, rfl⟩ := digits_of_digits? hdigits
    exact ⟨'.' :: ds, .point hds, rfl⟩
  · obtain ⟨rfl, rfl⟩ := Prod.mk.inj (Option.some.inj h)
    exact ⟨[], .absent, rfl⟩

theorem exists_numeralText {n : Numeral} (h : numeral? s = some (n, rest)) :
    ∃ t, NumeralText n t ∧ s = t ++ rest := by
  rw [numeral?.eq_def] at h
  split at h
  next negative u hsign =>
  have hs : s = (if negative then ['-'] else []) ++ u := by
    split at hsign <;> obtain ⟨rfl, rfl⟩ := Prod.mk.inj hsign <;> rfl
  obtain ⟨⟨whole, v⟩, hwhole, htail⟩ := Option.bind_eq_some_iff.1 h
  obtain ⟨hw, rfl⟩ := digits_of_digits? hwhole
  dsimp only at htail
  split at htail
  · nomatch htail
  · next hz =>
    obtain ⟨⟨fraction, x⟩, hfraction, htail⟩ := Option.bind_eq_some_iff.1 htail
    obtain ⟨⟨exponent, y⟩, hexponent, htail⟩ := Option.bind_eq_some_iff.1 htail
    obtain ⟨rfl, rfl⟩ := Prod.mk.inj (Option.some.inj htail)
    obtain ⟨f, hf, rfl⟩ := exists_fractionText hfraction
    obtain ⟨e, he, rfl⟩ := exists_exponentText hexponent
    refine ⟨_, .digits hw (fun h0 => Classical.not_not.1 fun h1 => hz ⟨h0, h1⟩) hf he, ?_⟩
    rw [hs]
    simp only [List.append_assoc]

theorem mem_of_unescape? {c e : Char} (h : unescape? e = some c) :
    (c, e) ∈ ('/', '/') :: shortEscapes := by
  rw [unescape?] at h
  split at h
  · next he =>
    obtain rfl := Option.some.inj h
    rw [he]
    exact List.mem_cons_self
  · obtain ⟨⟨c', e'⟩, hfind, rfl⟩ := Option.map_eq_some_iff.1 h
    have he : e' = e := by simpa using List.find?_some hfind
    rw [← he]
    exact List.mem_cons_of_mem _ (List.mem_of_find?_eq_some hfind)

theorem exists_literal {us : List Nat} (h : units? s = some (us, rest)) :
    ∃ t, Literal us t ∧ s = t ++ rest := by
  fun_induction units? s generalizing us with
  | case1 => nomatch h
  | case2 =>
    obtain ⟨rfl, rfl⟩ := Prod.mk.inj (Option.some.inj h)
    exact ⟨['"'], .close, rfl⟩
  | case3 a b c d s ih =>
    obtain ⟨u, hu, h⟩ := Option.bind_eq_some_iff.1 h
    obtain ⟨⟨us, r⟩, hus, h⟩ := Option.bind_eq_some_iff.1 h
    obtain ⟨rfl, rfl⟩ := Prod.mk.inj (Option.some.inj h)
    obtain ⟨t, ht, rfl⟩ := ih hus
    exact ⟨_, .unit hu ht, rfl⟩
  | case4 e s _ ih =>
    obtain ⟨c, hc, h⟩ := Option.bind_eq_some_iff.1 h
    obtain ⟨⟨us, r⟩, hus, h⟩ := Option.bind_eq_some_iff.1 h
    obtain ⟨rfl, rfl⟩ := Prod.mk.inj (Option.some.inj h)
    obtain ⟨t, ht, rfl⟩ := ih hus
    exact ⟨_, .letter (mem_of_unescape? hc) ht, rfl⟩
  | case5 => nomatch h
  | case6 c s hq _ _ hc ih =>
    obtain ⟨⟨us, r⟩, hus, heq⟩ := Option.map_eq_some_iff.1 h
    obtain ⟨rfl, rfl⟩ := Prod.mk.inj heq
    obtain ⟨t, ht, rfl⟩ := ih hus
    rw [not_or, Nat.not_lt] at hc
    exact ⟨_, .plain hc.1 hq hc.2 ht, rfl⟩

end Scanners

section Readers

variable {s rest : List Char} {d : Document}

theorem exists_written_of_wordOr {word : String} {e : Document} (hword : Written e word.toList)
    (h : wordOr word e s = (d, some rest)) : ∃ t, Written d t ∧ s = t ++ rest := by
  rw [wordOr] at h
  split at h
  · next hafter =>
    obtain ⟨rfl, hrest⟩ := Prod.mk.inj h
    obtain rfl := Option.some.inj hrest
    exact ⟨_, hword, Text.after?_eq_some_iff.1 hafter⟩
  · cases h

theorem exists_written_of_readScalar (h : readScalar s = (d, some rest)) :
    ∃ t, Written d t ∧ s = t ++ rest := by
  rw [readScalar.eq_def] at h
  split at h
  · exact exists_written_of_wordOr .null h
  · exact exists_written_of_wordOr .yes h
  · exact exists_written_of_wordOr .no h
  · rw [readNumber] at h
    split at h
    · next n r hnumeral =>
      obtain ⟨rfl, hrest⟩ := Prod.mk.inj h
      obtain rfl := Option.some.inj hrest
      obtain ⟨t, ht, rfl⟩ := exists_numeralText hnumeral
      exact ⟨t, .number ht, rfl⟩
    · cases h

theorem exists_literal_of_text? {o : Option String} (h : text? s = some (o, rest)) :
    ∃ us t, Literal us t ∧ literalText? us = o ∧ s = t ++ rest := by
  obtain ⟨⟨us, r⟩, hunits, heq⟩ := Option.map_eq_some_iff.1 h
  obtain ⟨rfl, rfl⟩ := Prod.mk.inj heq
  obtain ⟨t, ht, rfl⟩ := exists_literal hunits
  exact ⟨us, t, ht, rfl, rfl⟩

end Readers

-- By induction on the steps that are left: the cases of each reader are the
-- productions of the grammar, and a reader that breaks off leaves no rest.
mutual

theorem exists_written {n : Nat} {s rest : List Char} {d : Document}
    (h : readValue n s = (d, some rest)) :
    ∃ w t, Blank w ∧ Written d t ∧ s = w ++ (t ++ rest) := by
  match n with
  | 0 => cases h
  | n + 1 =>
    rw [readValue] at h
    split at h
    · next u hskip =>
      obtain ⟨w, hw, rfl⟩ := exists_blank_of_skip hskip
      split at h
      · next htext =>
        obtain ⟨rfl, hrest⟩ := Prod.mk.inj h
        obtain rfl := Option.some.inj hrest
        obtain ⟨us, t, ht, rfl, rfl⟩ := exists_literal_of_text? htext
        exact ⟨w, _, hw, .string ht, rfl⟩
      · cases h
    · next u hskip =>
      obtain ⟨w, hw, rfl⟩ := exists_blank_of_skip hskip
      split at h
      · next hclose =>
        obtain ⟨rfl, hrest⟩ := Prod.mk.inj h
        obtain rfl := Option.some.inj hrest
        obtain ⟨v, hv, rfl⟩ := exists_blank_of_skip hclose
        exact ⟨w, _, hw, .noItems hv, by simp⟩
      · obtain ⟨rfl, hrest⟩ := Prod.mk.inj h
        obtain ⟨t, ht, rfl⟩ := exists_writtenItems (n := n) (s := u) (Prod.ext rfl hrest)
        exact ⟨w, _, hw, .array ht, by simp⟩
    · next u hskip =>
      obtain ⟨w, hw, rfl⟩ := exists_blank_of_skip hskip
      split at h
      · next hclose =>
        obtain ⟨rfl, hrest⟩ := Prod.mk.inj h
        obtain rfl := Option.some.inj hrest
        obtain ⟨v, hv, rfl⟩ := exists_blank_of_skip hclose
        exact ⟨w, _, hw, .noMembers hv, by simp⟩
      · obtain ⟨rfl, hrest⟩ := Prod.mk.inj h
        obtain ⟨t, ht, rfl⟩ := exists_writtenMembers (n := n) (s := u) (Prod.ext rfl hrest)
        exact ⟨w, _, hw, .object ht, by simp⟩
    · next hskip =>
      obtain ⟨w, hw, hs⟩ := exists_blank_of_skip rfl
      obtain ⟨t, ht, hrest⟩ := exists_written_of_readScalar h
      exact ⟨w, t, hw, ht, hs.trans (by rw [hrest])⟩

theorem exists_writtenItems {n : Nat} {s rest : List Char} {ds : List Document}
    (h : readItems n s = (ds, some rest)) : ∃ t, WrittenItems ds t ∧ s = t ++ ']' :: rest := by
  match n with
  | 0 => cases h
  | n + 1 =>
    rw [readItems] at h
    split at h
    · cases h
    · next d u hvalue =>
      obtain ⟨w, t, hw, ht, rfl⟩ := exists_written hvalue
      split at h
      · next hclose =>
        obtain ⟨rfl, hrest⟩ := Prod.mk.inj h
        obtain rfl := Option.some.inj hrest
        obtain ⟨v, hv, rfl⟩ := exists_blank_of_skip hclose
        exact ⟨_, .last (.padded hw ht hv), by simp⟩
      · next u' hcomma =>
        obtain ⟨rfl, hrest⟩ := Prod.mk.inj h
        obtain ⟨v, hv, rfl⟩ := exists_blank_of_skip hcomma
        obtain ⟨t', ht', rfl⟩ := exists_writtenItems (n := n) (s := u') (Prod.ext rfl hrest)
        exact ⟨_, .cons (.padded hw ht hv) ht', by simp⟩
      · cases h

theorem exists_writtenMembers {n : Nat} {s rest : List Char}
    {ms : List (Option String × Document)} (h : readMembers n s = (ms, some rest)) :
    ∃ t, WrittenMembers ms t ∧ s = t ++ '\x7d' :: rest := by
  match n with
  | 0 => cases h
  | n + 1 =>
    rw [readMembers] at h
    split at h
    · next hquote =>
      obtain ⟨w, hw, rfl⟩ := exists_blank_of_skip hquote
      split at h
      · cases h
      · next htext =>
        obtain ⟨us, k, hk, rfl, rfl⟩ := exists_literal_of_text? htext
        split at h
        · next hcolon =>
          obtain ⟨v, hv, rfl⟩ := exists_blank_of_skip hcolon
          split at h
          · cases h
          · next d u hvalue =>
            obtain ⟨w', t, hw', ht, rfl⟩ := exists_written hvalue
            split at h
            · next hclose =>
              obtain ⟨rfl, hrest⟩ := Prod.mk.inj h
              obtain rfl := Option.some.inj hrest
              obtain ⟨v', hv', rfl⟩ := exists_blank_of_skip hclose
              exact ⟨_, .last (.keyed hw hk hv (.padded hw' ht hv')), by simp⟩
            · next u' hcomma =>
              obtain ⟨rfl, hrest⟩ := Prod.mk.inj h
              obtain ⟨v', hv', rfl⟩ := exists_blank_of_skip hcomma
              obtain ⟨t', ht', rfl⟩ := exists_writtenMembers (n := n) (s := u')
                (Prod.ext rfl hrest)
              exact ⟨_, .cons (.keyed hw hk hv (.padded hw' ht hv')) ht', by simp⟩
            · cases h
        · cases h
    · cases h

end

/-- The reader comes to the end of a text with a document just where the text is
one of the document. -/
theorem textOf_iff_read {d : Document} {s : String} :
    TextOf d s.toList ↔ read s = (d, true) := by
  refine ⟨read_of_textOf, fun h => ?_⟩
  rw [read] at h
  split at h
  next e r hvalue =>
  obtain ⟨rfl, hend⟩ := Prod.mk.inj h
  cases r with
  | none => exact absurd hend Bool.false_ne_true
  | some rest =>
    obtain ⟨w, t, hw, ht, hs⟩ := exists_written hvalue
    obtain ⟨v, hv, rfl⟩ := exists_blank_of_skip (List.isEmpty_iff.1 hend)
    rw [hs, List.append_nil]
    exact .padded hw ht hv

end PodTarget.Json
