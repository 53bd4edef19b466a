import Mathlib.Algebra.Order.Ring.Nat
import Mathlib.Data.Nat.Log
import Mathlib.Tactic.Ring
import Mathlib.Tactic.Linarith
import PodTarget.Number.Binary64

/-! Rounding keeps the order of numbers. A multiple of the spacing of doubles next to a
number is never jumped over; between numbers of different spacings there is a power of
two, which is such a multiple for both of them. So a short decimal is rounded to the same
side of a bound as it is on, if the doubles around the bound are close enough. -/

namespace PodTarget.Number

section Whole

variable {tie : Tie} {num den num' den' : Nat}

theorem div_le_divRound : num / den ≤ divRound tie num den := by
  simp only [divRound]
  split
  · exact Nat.le_refl _
  · split
    · exact Nat.le_succ _
    · exact Nat.le_add_right _ _

theorem divRound_le_div_succ : divRound tie num den ≤ num / den + 1 := by
  simp only [divRound]
  split
  · exact Nat.le_succ _
  · split
    · exact Nat.le_refl _
    · rcases tie.step_eq (num / den) with h | h <;> omega

theorem divRound_mul (n : Nat) (h : 0 < den) : divRound tie (n * den) den = n := by
  simp [divRound, Nat.mul_mod_left, Nat.mul_div_left n h, h]

theorem div_le_div_of_mul_le (hd : 0 < den) (hd' : 0 < den') (h : num * den' ≤ num' * den) :
    num / den ≤ num' / den' := by
  rw [Nat.le_div_iff_mul_le hd']
  refine Nat.le_of_mul_le_mul_right ?_ hd
  calc num / den * den' * den = num / den * den * den' := Nat.mul_right_comm ..
    _ ≤ num * den' := Nat.mul_le_mul_right _ (Nat.div_mul_le_self ..)
    _ ≤ num' * den := h

/-- Of the numbers between two whole ones, those in the upper half go up, and where the
one that is halfway goes does not depend on how it is written. -/
theorem divRound_mono (hd : 0 < den) (hd' : 0 < den') (h : num * den' ≤ num' * den) :
    divRound tie num den ≤ divRound tie num' den' := by
  have hle : num / den ≤ num' / den' := div_le_div_of_mul_le hd hd' h
  rcases Nat.lt_or_eq_of_le hle with hlt | heq
  · exact divRound_le_div_succ.trans (Nat.le_trans hlt div_le_divRound)
  · -- both lie above the same whole number, so their remainders are compared
    have hrem : num % den * den' ≤ num' % den' * den := by
      have hn : num * den' = num / den * (den * den') + num % den * den' := by
        conv_lhs => rw [← Nat.div_add_mod num den]
        ring
      have hn' : num' * den = num' / den' * (den * den') + num' % den' * den := by
        conv_lhs => rw [← Nat.div_add_mod num' den']
        ring
      rw [hn, hn', heq] at h
      omega
    have hup : divRound tie num den ≤ num' / den' + 1 := heq ▸ divRound_le_div_succ
    rcases Nat.lt_trichotomy (2 * (num' % den')) den' with hlow | hmid | hhigh
    · have : 2 * (num % den) < den := by
        by_contra hge
        nlinarith [Nat.mul_le_mul_right den' (Nat.le_of_not_lt hge)]
      simp only [divRound, heq, this, hlow, if_true]
      exact Nat.le_refl _
    · have : ¬den < 2 * (num % den) := by
        intro hgt
        nlinarith [Nat.mul_le_mul_right den' hgt]
      simp only [divRound, heq, this, hmid, Nat.lt_irrefl, if_false]
      split
      · exact Nat.le_add_right _ _
      · exact Nat.le_refl _
    · simp only [divRound, heq, hhigh, Nat.not_lt_of_lt hhigh, if_true, if_false] at hup ⊢
      exact hup

end Whole

/-- The number of units that `n / den` units are rounded to, however many these are. -/
def roundUnits (n den : Nat) : Nat :=
  divRound .toEven n (den * spacing (n / den)) * spacing (n / den)

theorem nearest?_eq (num den : Nat) : nearest? num den =
    if roundUnits (num * one) den < Nat.pow 2 2098 then some (roundUnits (num * one) den)
    else none := rfl

section Units

variable {n den n' den' v : Nat}

theorem spacing_pos (u : Nat) : 0 < spacing u := Nat.pow_pos (by decide)

theorem spacing_dvd_pow {u k : Nat} (h : u.log2 ≤ k) : spacing u ∣ 2 ^ k :=
  pow_dvd_pow 2 (Nat.le_trans (Nat.sub_le ..) h)

/-- A multiple of the spacing is not jumped over from above. -/
theorem le_roundUnits (hd : 0 < den) (hv : spacing (n / den) ∣ v) (h : v * den ≤ n) :
    v ≤ roundUnits n den := by
  obtain ⟨c, rfl⟩ := hv
  rw [roundUnits, Nat.mul_comm]
  refine Nat.mul_le_mul_right _ (Nat.le_trans ?_ div_le_divRound)
  rw [Nat.le_div_iff_mul_le (Nat.mul_pos hd (spacing_pos _))]
  calc c * (den * spacing (n / den)) = spacing (n / den) * c * den := by ring
    _ ≤ n := h

/-- Nor from below. -/
theorem roundUnits_le (hd : 0 < den) (hv : spacing (n / den) ∣ v) (h : n ≤ v * den) :
    roundUnits n den ≤ v := by
  obtain ⟨c, rfl⟩ := hv
  have hpos : 0 < den * spacing (n / den) := Nat.mul_pos hd (spacing_pos _)
  rw [roundUnits, Nat.mul_comm (spacing _) c]
  refine Nat.mul_le_mul_right _ ?_
  calc divRound .toEven n (den * spacing (n / den))
      ≤ divRound .toEven (c * (den * spacing (n / den))) (den * spacing (n / den)) := by
        refine divRound_mono hpos hpos (Nat.mul_le_mul_right _ ?_)
        calc n ≤ spacing (n / den) * c * den := h
          _ = c * (den * spacing (n / den)) := by ring
    _ = c := divRound_mul c hpos

theorem roundUnits_mono (hd : 0 < den) (hd' : 0 < den') (h : n * den' ≤ n' * den) :
    roundUnits n den ≤ roundUnits n' den' := by
  have hle : n / den ≤ n' / den' := div_le_div_of_mul_le hd hd' h
  by_cases hs : spacing (n / den) = spacing (n' / den')
  · rw [roundUnits, roundUnits, hs]
    have hpos := spacing_pos (n' / den')
    refine Nat.mul_le_mul_right _ (divRound_mono (Nat.mul_pos hd hpos) (Nat.mul_pos hd' hpos) ?_)
    rw [← Nat.mul_assoc, ← Nat.mul_assoc]
    exact Nat.mul_le_mul_right _ h
  · -- a power of two lies between the two
    have hlog : (n / den).log2 < (n' / den').log2 := by
      have hmono := @Nat.log_mono_right 2 _ _ hle
      rw [← Nat.log2_eq_log_two, ← Nat.log2_eq_log_two] at hmono
      exact Nat.lt_of_le_of_ne hmono fun heq => hs (by rw [spacing, spacing, heq])
    have hne : n' / den' ≠ 0 := by
      intro hzero
      rw [hzero, Nat.log2_zero] at hlog
      exact Nat.not_lt_zero _ hlog
    calc roundUnits n den ≤ 2 ^ ((n / den).log2 + 1) := by
          refine roundUnits_le hd (spacing_dvd_pow (Nat.le_succ _)) ?_
          exact Nat.le_of_lt ((Nat.div_lt_iff_lt_mul hd).1 Nat.lt_log2_self)
      _ ≤ 2 ^ (n' / den').log2 := Nat.pow_le_pow_right (by decide) hlog
      _ ≤ roundUnits n' den' := by
          refine le_roundUnits hd' (spacing_dvd_pow (Nat.le_refl _)) ?_
          exact (Nat.le_div_iff_mul_le hd').1 (Nat.log2_self_le hne)

end Units

/-- Nothing up to `10 ^ -14` below `b` tenths is rounded to the double nearest to these. -/
def SetApart (b : Nat) : Prop :=
  10 < b ∧ roundUnits ((b * 10 ^ 13 - 1) * one) (10 ^ 14) < roundUnits (b * one) 10

instance (b : Nat) : Decidable (SetApart b) := inferInstanceAs (Decidable (_ ∧ _))

theorem setApart_five : SetApart 50 := by decide +kernel
theorem setApart_four_two : SetApart 42 := by decide +kernel

/-- A number of at most fifteen digits that lies below `b` tenths lies `10 ^ -14` below. -/
theorem mul_le_of_lt {b m k : Nat} (hb : 10 < b) (hm : m < 10 ^ 15) (h : 10 * m < b * 10 ^ k) :
    m * 10 ^ 14 ≤ (b * 10 ^ 13 - 1) * 10 ^ k := by
  rw [Nat.sub_mul, Nat.one_mul, Nat.mul_right_comm]
  rcases Nat.lt_or_ge k 15 with hk | hk
  · cases k with
    | zero => omega
    | succ k =>
      -- both sides of `h` are multiples of ten, so they are ten apart
      have hpow : 10 ^ (k + 1) ≤ 10 ^ 14 := Nat.pow_le_pow_right (by decide) (by omega)
      have hten : b * 10 ^ (k + 1) = 10 * (b * 10 ^ k) := by rw [Nat.pow_succ]; ring
      rw [hten] at h ⊢
      omega
  · have hpow : 10 ^ 15 ≤ 10 ^ k := Nat.pow_le_pow_right (by decide) hk
    have hb' : 11 * 10 ^ k ≤ b * 10 ^ k := Nat.mul_le_mul_right _ hb
    omega

section Short

variable {b digits den m k : Nat}

/-- Rounding keeps a short decimal on its side of a bound that is set apart. -/
theorem roundUnits_tenths_le_iff (hb : SetApart b) (hden : 0 < den) (hm : m < 10 ^ 15)
    (hshort : digits * 10 ^ k = m * den) :
    roundUnits (b * one) 10 ≤ roundUnits (digits * one) den ↔ b * den ≤ 10 * digits := by
  have hk : 0 < 10 ^ k := Nat.pow_pos (by decide)
  constructor
  · intro hle
    by_contra hlt
    have hbelow : 10 * m < b * 10 ^ k := by
      refine Nat.lt_of_mul_lt_mul_right (a := den) ?_
      calc 10 * m * den = 10 * digits * 10 ^ k := by rw [Nat.mul_assoc, ← hshort, Nat.mul_assoc]
        _ < b * den * 10 ^ k := Nat.mul_lt_mul_of_pos_right (Nat.lt_of_not_le hlt) hk
        _ = b * 10 ^ k * den := Nat.mul_right_comm ..
    have hgap : digits * 10 ^ 14 ≤ (b * 10 ^ 13 - 1) * den := by
      refine Nat.le_of_mul_le_mul_right (c := 10 ^ k) ?_ hk
      calc digits * 10 ^ 14 * 10 ^ k = m * 10 ^ 14 * den := by
            rw [Nat.mul_right_comm, hshort, Nat.mul_right_comm]
        _ ≤ (b * 10 ^ 13 - 1) * 10 ^ k * den := Nat.mul_le_mul_right _ (mul_le_of_lt hb.1 hm hbelow)
        _ = (b * 10 ^ 13 - 1) * den * 10 ^ k := Nat.mul_right_comm ..
    have hround : roundUnits (digits * one) den ≤
        roundUnits ((b * 10 ^ 13 - 1) * one) (10 ^ 14) := by
      refine roundUnits_mono hden (by decide) ?_
      rw [Nat.mul_right_comm, Nat.mul_right_comm _ one]
      exact Nat.mul_le_mul_right _ hgap
    exact absurd hle (Nat.not_le_of_lt (Nat.lt_of_le_of_lt hround hb.2))
  · intro hle
    refine roundUnits_mono (by decide) hden ?_
    rw [Nat.mul_right_comm, Nat.mul_right_comm digits, Nat.mul_comm digits]
    exact Nat.mul_le_mul_right _ hle

theorem nearest?_of_short (hden : 0 < den) (hm : m < 10 ^ 15)
    (hshort : digits * 10 ^ k = m * den) :
    nearest? digits den = some (roundUnits (digits * one) den) := by
  have hk : 0 < 10 ^ k := Nat.pow_pos (by decide)
  have hle : digits ≤ 10 ^ 15 * den := by
    calc digits ≤ digits * 10 ^ k := Nat.le_mul_of_pos_right _ hk
      _ = m * den := hshort
      _ ≤ 10 ^ 15 * den := Nat.mul_le_mul_right _ (Nat.le_of_lt hm)
  have hround : roundUnits (digits * one) den ≤ roundUnits (10 ^ 15 * one) 1 := by
    refine roundUnits_mono hden (by decide) ?_
    rw [Nat.mul_one, Nat.mul_right_comm]
    exact Nat.mul_le_mul_right _ hle
  have hlargest : roundUnits (10 ^ 15 * one) 1 < Nat.pow 2 2098 := by decide +kernel
  rw [nearest?_eq, if_pos (Nat.lt_of_le_of_lt hround hlargest)]

/-- A short decimal is rounded to a double that is on its side of every bound set apart,
whether the exponent alone decides or not. -/
theorem Decimal.exists_nearest? {d : Decimal} {n : Nat} (hd : d.exponent = -n)
    (hm : m < 10 ^ 15) (hshort : d.digits * 10 ^ k = m * 10 ^ n) :
    ∃ u, d.nearest? = some u ∧
      ∀ b, SetApart b → (roundUnits (b * one) 10 ≤ u ↔ b * 10 ^ n ≤ 10 * d.digits) := by
  have hn : 0 < 10 ^ n := Nat.pow_pos (by decide)
  have hzero (hsmall : d.digits < 10 ^ n) : ∃ u, some 0 = some u ∧
      ∀ b, SetApart b → (roundUnits (b * one) 10 ≤ u ↔ b * 10 ^ n ≤ 10 * d.digits) := by
    refine ⟨0, rfl, fun b hb => iff_of_false (Nat.not_le_of_lt (Nat.zero_lt_of_lt hb.2)) ?_⟩
    have hten : 10 * 10 ^ n ≤ b * 10 ^ n := Nat.mul_le_mul_right _ (Nat.le_of_lt hb.1)
    omega
  rw [Decimal.nearest?]
  split
  case isTrue hnone => exact hzero (by omega)
  case isFalse =>
    rw [if_neg (by omega)]
    split
    case isTrue hlog =>
      refine hzero ?_
      calc d.digits < 2 ^ (d.digits.log2 + 1) := Nat.lt_log2_self
        _ ≤ 2 ^ n := Nat.pow_le_pow_right (by decide) (by omega)
        _ ≤ 10 ^ n := Nat.pow_le_pow_left (by decide) n
    case isFalse =>
      have hup : d.exponent.toNat = 0 := by omega
      have hdown : (-d.exponent).toNat = n := by omega
      rw [hup, hdown, Nat.pow_eq, Nat.pow_eq, Nat.pow_zero, Nat.mul_one]
      exact ⟨_, nearest?_of_short hn hm hshort, fun b hb => roundUnits_tenths_le_iff hb hn hm hshort⟩

end Short

end PodTarget.Number
