import Mathlib.Data.List.Induction
import Mathlib.Data.Nat.Digits.Defs
import Mathlib.Data.Rat.Defs
import Mathlib.Algebra.Order.Field.Basic
import Mathlib.Algebra.Order.Ring.Rat
import Mathlib.Tactic.FieldSimp
import PodTarget.Proofs.Rounding
import PodTarget.SwiftVersion

/-! The Swift version by the exact values of the versions declared. What is compared are
doubles, but no short decimal is rounded across one of the two bounds, so the choice comes
out as if the decimals themselves were compared. -/

namespace PodTarget

open Number

/-- The number that decimal digits stand for. -/
def valueOf (ds : List Char) : Nat :=
  Nat.ofDigits 10 (ds.reverse.map fun c => c.toNat - '0'.toNat)

/-- Digits with at most one point in front of, between or behind them, and the number that
they stand for. -/
inductive MagnitudeText : List Char → ℚ → Prop
  | whole {ds : List Char} (hne : ds ≠ []) (hd : ∀ c ∈ ds, c.isDigit) :
      MagnitudeText ds (valueOf ds)
  | point {ds es : List Char} (hne : ds ++ es ≠ []) (hd : ∀ c ∈ ds ++ es, c.isDigit) :
      MagnitudeText (ds ++ '.' :: es) (valueOf (ds ++ es) / 10 ^ es.length)

/-- A decimal without an exponent: the same with a sign, which may be missing. -/
inductive DecimalText : List Char → ℚ → Prop
  | bare {s : List Char} {q : ℚ} (h : MagnitudeText s q) : DecimalText s q
  | plus {s : List Char} {q : ℚ} (h : MagnitudeText s q) : DecimalText ('+' :: s) q
  | minus {s : List Char} {q : ℚ} (h : MagnitudeText s q) : DecimalText ('-' :: s) (-q)

theorem digitsValue_eq (ds : List Char) : digitsValue ds = valueOf ds := by
  induction ds using List.reverseRecOn with
  | nil => rfl
  | append_singleton ds c ih =>
    rw [digitsValue, List.foldl_append, ← digitsValue, ih, valueOf, valueOf, List.reverse_append]
    simp [Nat.ofDigits_cons, Nat.add_comm]

theorem span_digits {ds rest : List Char} (hd : ∀ c ∈ ds, c.isDigit)
    (hrest : ∀ c ∈ rest.head?, c.isDigit = false) :
    (ds ++ rest).takeWhile Char.isDigit = ds ∧ (ds ++ rest).dropWhile Char.isDigit = rest := by
  rw [List.takeWhile_append_of_pos hd, List.dropWhile_append_of_pos hd]
  cases rest with
  | nil => simp
  | cons c rest => simp [hrest c rfl]

/-- What is read of the digits keeps their number exactly. -/
theorem MagnitudeText.unsignedDecimal? {s : List Char} {q : ℚ} (h : MagnitudeText s q) :
    ∃ (d : Decimal) (n : Nat), Number.unsignedDecimal? s = some d ∧ d.exponent = -n ∧
      q = d.digits / 10 ^ n := by
  cases h with
  | @whole _ hne hd =>
    obtain ⟨htake, hdrop⟩ := @span_digits s [] hd nofun
    rw [List.append_nil] at htake hdrop
    refine ⟨.ofDigits s [] 0, 0, ?_, rfl, ?_⟩
    · simp [Number.unsignedDecimal?, mantissa?, htake, hdrop, hne, exponent?]
    · simp [Decimal.ofDigits, digitsValue_eq]
  | @point ds es hne hd =>
    have hds : ∀ c ∈ ds, c.isDigit := fun c hc => hd c (List.mem_append_left _ hc)
    have hes : ∀ c ∈ es, c.isDigit := fun c hc => hd c (List.mem_append_right _ hc)
    obtain ⟨htake, hdrop⟩ := @span_digits ds ('.' :: es) hds (by simp)
    obtain ⟨htake', hdrop'⟩ := @span_digits es [] hes nofun
    rw [List.append_nil] at htake' hdrop'
    have hsome : (ds.isEmpty && es.isEmpty) = false := by
      simpa [Bool.and_eq_false_iff, List.append_eq_nil_iff] using hne
    refine ⟨.ofDigits ds es 0, es.length, ?_, ?_, ?_⟩
    · simp [Number.unsignedDecimal?, mantissa?, htake, hdrop, htake', hdrop', hsome, exponent?]
    · simp [Decimal.ofDigits]
    · rw [Decimal.ofDigits, digitsValue_eq]

theorem MagnitudeText.exists_cons {s : List Char} {q : ℚ} (h : MagnitudeText s q) :
    ∃ c rest, s = c :: rest ∧ (c.isDigit ∨ c = '.') := by
  cases h with
  | whole hne hd =>
    obtain ⟨c, rest, rfl⟩ := List.exists_cons_of_ne_nil hne
    exact ⟨c, rest, rfl, Or.inl (hd c List.mem_cons_self)⟩
  | @point ds es hne hd =>
    cases ds with
    | nil => exact ⟨'.', es, rfl, Or.inr rfl⟩
    | cons c ds => exact ⟨c, _, rfl, Or.inl (hd c List.mem_cons_self)⟩

theorem ne_of_digit_or_point {c d : Char} (hc : c.isDigit ∨ c = '.') (hdigit : d.isDigit = false)
    (hpoint : d ≠ '.') : c ≠ d := by
  rintro rfl
  rcases hc with hc | hc
  · exact absurd hc (by simp [hdigit])
  · exact hpoint hc

theorem toLower_of_isDigit {c : Char} (h : c.isDigit) : c.toLower = c := by
  have hnine : c.val ≤ '9'.val := of_decide_eq_true (Bool.and_eq_true_iff.1 h).2
  exact dif_neg fun hupper => absurd (UInt32.le_trans hupper.1 hnine) (by decide)

/-- No text of digits and a point is one of the words for a double. -/
theorem ofText?_of_sign {s t : List Char} {q : ℚ} {negative : Bool} (ht : MagnitudeText t q)
    (hs : sign s = (negative, t)) :
    Binary64.ofText? s = (unsignedDecimal? t).map (Decimal.toBinary64 negative) := by
  obtain ⟨c, rest, rfl, hc⟩ := ht.exists_cons
  have hlower : c.toLower ≠ 'i' ∧ c.toLower ≠ 'n' := by
    have hself : c.toLower = c := by
      rcases hc with hc | rfl
      · exact toLower_of_isDigit hc
      · decide
    rw [hself]
    exact ⟨ne_of_digit_or_point hc (by decide) (by decide),
      ne_of_digit_or_point hc (by decide) (by decide)⟩
  have hword (d : Char) (ds : List Char) (hd : c.toLower ≠ d) :
      String.ofList ((c :: rest).map Char.toLower) ≠ String.ofList (d :: ds) := by
    intro h
    rw [String.ofList_inj, List.map_cons] at h
    exact hd (List.head_eq_of_cons_eq h)
  have hinf := hword 'i' ['n', 'f'] hlower.1
  have hinfinity := hword 'i' ['n', 'f', 'i', 'n', 'i', 't', 'y'] hlower.1
  have hnan := hword 'n' ['a', 'n'] hlower.2
  rw [Binary64.ofText?, hs]
  show (if _ = "inf" ∨ _ = "infinity" then _ else if _ = "nan" then _ else _) = _
  rw [if_neg (not_or.2 ⟨hinf, hinfinity⟩), if_neg hnan]

theorem MagnitudeText.sign_eq {s : List Char} {q : ℚ} (h : MagnitudeText s q) :
    sign s = (false, s) := by
  obtain ⟨c, rest, rfl, hc⟩ := h.exists_cons
  have hplus : c ≠ '+' := ne_of_digit_or_point hc (by decide) (by decide)
  have hminus : c ≠ '-' := ne_of_digit_or_point hc (by decide) (by decide)
  simp [sign, hplus, hminus]

theorem DecimalText.exists_sign {s : List Char} {q : ℚ} (h : DecimalText s q) :
    ∃ negative t q', sign s = (negative, t) ∧ MagnitudeText t q' ∧
      q = if negative then -q' else q' := by
  cases h with
  | bare h => exact ⟨false, s, q, h.sign_eq, h, rfl⟩
  | plus h => exact ⟨false, _, q, rfl, h, rfl⟩
  | minus h => exact ⟨true, _, _, rfl, h, rfl⟩

/-- The double read from a decimal is the one nearest to its exact value. -/
theorem DecimalText.exists_decimal {s : List Char} {q : ℚ} (h : DecimalText s q) :
    ∃ (d : Decimal) (n : Nat), unsignedDecimal? (sign s).2 = some d ∧ d.exponent = -n ∧
      Binary64.ofText? s = some (d.toBinary64 (sign s).1) ∧
      q = if (sign s).1 then -((d.digits : ℚ) / 10 ^ n) else (d.digits : ℚ) / 10 ^ n := by
  obtain ⟨negative, t, q', hs, ht, hq⟩ := h.exists_sign
  obtain ⟨d, n, hd, hn, rfl⟩ := ht.unsignedDecimal?
  rw [ofText?_of_sign ht hs, hs, hd]
  exact ⟨d, n, rfl, hn, rfl, hq⟩

/-- A text has at most one value. -/
theorem DecimalText.unique {s : List Char} {q q' : ℚ} (h : DecimalText s q)
    (h' : DecimalText s q') : q = q' := by
  obtain ⟨d, n, hd, hn, -, hq⟩ := h.exists_decimal
  obtain ⟨d', n', hd', hn', -, hq'⟩ := h'.exists_decimal
  rw [hd, Option.some.injEq] at hd'
  subst hd'
  obtain rfl : n = n' := by omega
  rw [hq, hq']

theorem DecimalText.ofText?_ne_none {s : List Char} {q : ℚ} (h : DecimalText s q) :
    Binary64.ofText? s ≠ none := by
  obtain ⟨d, n, -, -, htext, -⟩ := h.exists_decimal
  rw [htext]
  exact Option.some_ne_none _

theorem versionNumber?_eq_none {v : String} (h : Binary64.ofText? (Text.trim v.toList) = none) :
    versionNumber? v = none := by
  rw [versionNumber?, h]

/-- A number that can be written with fewer than sixteen digits and a point. -/
def Short (q : ℚ) : Prop := ∃ (m : ℤ) (k : Nat), |m| < 10 ^ 15 ∧ q = m / 10 ^ k

theorem Short.exists_abs {q : ℚ} (h : Short q) : ∃ m k : Nat, m < 10 ^ 15 ∧ |q| = m / 10 ^ k := by
  obtain ⟨m, k, hm, rfl⟩ := h
  have habs : (m.natAbs : ℤ) = |m| := Int.natCast_natAbs m
  refine ⟨m.natAbs, k, by omega, ?_⟩
  rw [abs_div, abs_of_pos (by positivity : (0 : ℚ) < 10 ^ k), Nat.cast_natAbs, Int.cast_abs]

/-- Where a short decimal is declared, it is seen on its own side of every bound set apart. -/
theorem versionNumber?_of_decimal {v : String} {q : ℚ} (h : DecimalText (Text.trim v.toList) q)
    (hshort : Short q) : ∃ x, versionNumber? v = some x ∧
      ∀ b, SetApart b → (x.atLeast (roundUnits (b * one) 10) = true ↔ (b : ℚ) / 10 ≤ q) := by
  obtain ⟨d, n, -, hn, htext, hq⟩ := h.exists_decimal
  have hpos : (0 : ℚ) ≤ d.digits / 10 ^ n := by positivity
  have habs : |q| = d.digits / 10 ^ n := by
    rw [hq]
    split
    · rw [abs_neg, abs_of_nonneg hpos]
    · exact abs_of_nonneg hpos
  obtain ⟨m, k, hm, hmk⟩ := hshort.exists_abs
  have hdigits : d.digits * 10 ^ k = m * 10 ^ n := by
    rw [habs, div_eq_div_iff (by positivity) (by positivity)] at hmk
    exact_mod_cast hmk
  obtain ⟨u, hu, hside⟩ := d.exists_nearest? hn hm hdigits
  refine ⟨.finite (sign (Text.trim v.toList)).1 u, ?_, fun b hb => ?_⟩
  · rw [versionNumber?, htext, Decimal.toBinary64, hu]
  · cases hsign : (sign (Text.trim v.toList)).1 with
    | false =>
      rw [hsign, if_neg Bool.false_ne_true] at hq
      rw [Binary64.atLeast, decide_eq_true_eq, hside b hb, hq,
        div_le_div_iff₀ (by positivity) (by positivity), mul_comm _ (10 : ℚ)]
      exact_mod_cast Iff.rfl
    | true =>
      rw [hsign, if_pos rfl] at hq
      have hbound : roundUnits (b * one) 10 ≠ 0 := Nat.ne_of_gt (Nat.zero_lt_of_lt hb.2)
      have htenths : (0 : ℚ) < b / 10 := by
        have : 0 < b := Nat.zero_lt_of_lt hb.1
        positivity
      refine iff_of_false (by simp [Binary64.atLeast, hbound]) ?_
      linarith

theorem boundUnits_five : boundUnits 5 1 = roundUnits (50 * one) 10 := by decide +kernel

theorem boundUnits_four_two : boundUnits 42 10 = roundUnits (42 * one) 10 := by decide +kernel

/-- One of the versions is a decimal of this value. -/
def Declares (versions : List String) (q : ℚ) : Prop :=
  ∃ v ∈ versions, DecimalText (Text.trim v.toList) q

section Versions

variable {versions : List String}

/-- Each version is a short decimal, or no number at all. -/
def ShortVersions (versions : List String) : Prop :=
  ∀ v ∈ versions, Binary64.ofText? (Text.trim v.toList) = none ∨
    ∃ q, DecimalText (Text.trim v.toList) q ∧ Short q

theorem exists_atLeast_iff (h : ShortVersions versions) {b : Nat} (hb : SetApart b) :
    (versions.filterMap versionNumber?).any (Binary64.atLeast (roundUnits (b * one) 10)) = true ↔
      ∃ q, Declares versions q ∧ (b : ℚ) / 10 ≤ q := by
  simp only [List.any_eq_true, List.mem_filterMap]
  constructor
  · rintro ⟨x, ⟨v, hv, hx⟩, hat⟩
    rcases h v hv with hnone | ⟨q, hq, hshort⟩
    · rw [versionNumber?_eq_none hnone] at hx
      nomatch hx
    · obtain ⟨y, hy, hside⟩ := versionNumber?_of_decimal hq hshort
      obtain rfl : y = x := Option.some.inj (hy.symm.trans hx)
      exact ⟨q, ⟨v, hv, hq⟩, (hside b hb).1 hat⟩
  · rintro ⟨q, ⟨v, hv, hq⟩, hle⟩
    rcases h v hv with hnone | ⟨q', hq', hshort⟩
    · exact absurd hnone hq.ofText?_ne_none
    · obtain rfl := hq.unique hq'
      obtain ⟨x, hx, hside⟩ := versionNumber?_of_decimal hq hshort
      exact ⟨x, ⟨v, hv, hx⟩, (hside b hb).2 hle⟩

theorem isEmpty_versionNumbers_iff (h : ShortVersions versions) :
    (versions.filterMap versionNumber?).isEmpty = true ↔ ¬∃ q, Declares versions q := by
  rw [List.isEmpty_iff, List.filterMap_eq_nil_iff]
  constructor
  · rintro hnone ⟨q, v, hv, hq⟩
    rcases h v hv with htext | ⟨q', hq', hshort⟩
    · exact hq.ofText?_ne_none htext
    · obtain ⟨x, hx, -⟩ := versionNumber?_of_decimal hq' hshort
      rw [hnone v hv] at hx
      nomatch hx
  · intro hnone v hv
    rcases h v hv with htext | ⟨q, hq, -⟩
    · exact versionNumber?_eq_none htext
    · exact absurd ⟨q, v, hv, hq⟩ hnone

/-- Neither the order of the versions nor their repetition counts. -/
theorem swiftVersion?_congr {versions' : List String} (h : ∀ v, v ∈ versions' ↔ v ∈ versions) :
    swiftVersion? versions' = swiftVersion? versions := by
  have hmem (x : Binary64) :
      x ∈ versions'.filterMap versionNumber? ↔ x ∈ versions.filterMap versionNumber? := by
    simp only [List.mem_filterMap, h]
  have hany (p : Binary64 → Bool) : (versions'.filterMap versionNumber?).any p =
      (versions.filterMap versionNumber?).any p := by
    rw [Bool.eq_iff_iff, List.any_eq_true, List.any_eq_true]
    exact exists_congr fun x => and_congr_left' (hmem x)
  have hempty : (versions'.filterMap versionNumber?).isEmpty =
      (versions.filterMap versionNumber?).isEmpty := by
    rw [Bool.eq_iff_iff, List.isEmpty_iff, List.isEmpty_iff, List.eq_nil_iff_forall_not_mem,
      List.eq_nil_iff_forall_not_mem]
    exact forall_congr' fun x => not_congr (hmem x)
  simp only [swiftVersion?, hany, hempty]

open Classical in
/-- The Swift version is chosen by the exact values of the versions declared, though it is
their doubles that are compared, and the double nearest to 4.2 is not 4.2. -/
theorem swiftVersion?_of_short_versions (h : ShortVersions versions) :
    swiftVersion? versions =
      (if ∃ q, Declares versions q ∧ 5 ≤ q then some "5"
      else if ∃ q, Declares versions q ∧ 42 / 10 ≤ q then some "4.2"
      else if ∃ q, Declares versions q then some "4"
      else none) ∧
    ∀ versions' : List String, (∀ v, v ∈ versions' ↔ v ∈ versions) →
      swiftVersion? versions' = swiftVersion? versions := by
  refine ⟨?_, fun versions' => swiftVersion?_congr⟩
  have hfive := exists_atLeast_iff h setApart_five
  have hfourTwo := exists_atLeast_iff h setApart_four_two
  rw [show ((50 : Nat) : ℚ) / 10 = 5 by norm_num] at hfive
  rw [Nat.cast_ofNat] at hfourTwo
  simp only [swiftVersion?, boundUnits_five, boundUnits_four_two, hfive, hfourTwo,
    isEmpty_versionNumbers_iff h, ite_not]

end Versions

/-- Versions of which one is no number and none is written in the shortest form. -/
def mixedVersions : List String := ["+4.20 ", "latest", "-07"]

theorem decimalText_fourTwo : DecimalText (Text.trim "+4.20 ".toList) (42 / 10) := by
  have htext := DecimalText.plus (@MagnitudeText.point ['4'] ['2', '0'] (by simp) (by simp))
  have hvalue : valueOf (['4'] ++ ['2', '0']) = 420 := by decide +kernel
  rw [hvalue] at htext
  convert htext using 1
  · decide +kernel
  · norm_num

theorem decimalText_seven : DecimalText (Text.trim "-07".toList) (-7) :=
  .minus (@MagnitudeText.whole ['0', '7'] (by simp) (by simp))

theorem ofText?_latest : Binary64.ofText? (Text.trim "latest".toList) = none := by decide +kernel

theorem mem_mixedVersions_iff {v : String} :
    v ∈ mixedVersions ↔ v = "+4.20 " ∨ v = "latest" ∨ v = "-07" := by simp [mixedVersions]

theorem declares_mixedVersions_iff {q : ℚ} :
    Declares mixedVersions q ↔ q = 42 / 10 ∨ q = -7 := by
  constructor
  · rintro ⟨v, hv, hq⟩
    rcases mem_mixedVersions_iff.1 hv with rfl | rfl | rfl
    · exact Or.inl (hq.unique decimalText_fourTwo)
    · exact absurd ofText?_latest hq.ofText?_ne_none
    · exact Or.inr (hq.unique decimalText_seven)
  · rintro (rfl | rfl)
    · exact ⟨_, mem_mixedVersions_iff.2 (Or.inl rfl), decimalText_fourTwo⟩
    · exact ⟨_, mem_mixedVersions_iff.2 (Or.inr (Or.inr rfl)), decimalText_seven⟩

theorem swiftVersion?_of_short_versions_mixed : ShortVersions mixedVersions ∧
    swiftVersion? mixedVersions = some "4.2" ∧
    swiftVersion? (mixedVersions ++ mixedVersions).reverse = some "4.2" := by
  have hshort : ShortVersions mixedVersions := by
    intro v hv
    rcases mem_mixedVersions_iff.1 hv with rfl | rfl | rfl
    · exact Or.inr ⟨_, decimalText_fourTwo, 42, 1, by decide, by norm_num⟩
    · exact Or.inl ofText?_latest
    · exact Or.inr ⟨_, decimalText_seven, -7, 0, by decide, by norm_num⟩
  obtain ⟨hversion, hsame⟩ := swiftVersion?_of_short_versions hshort
  have hfive : ¬∃ q, Declares mixedVersions q ∧ 5 ≤ q := by
    rintro ⟨q, hq, hle⟩
    rcases declares_mixedVersions_iff.1 hq with rfl | rfl
    · norm_num at hle
    · norm_num at hle
  have hfourTwo : ∃ q, Declares mixedVersions q ∧ 42 / 10 ≤ q :=
    ⟨_, declares_mixedVersions_iff.2 (Or.inl rfl), le_refl _⟩
  rw [if_neg hfive, if_pos hfourTwo] at hversion
  refine ⟨hshort, hversion, (hsame _ fun v => ?_).trans hversion⟩
  rw [List.mem_reverse, List.mem_append, or_self]

end PodTarget
