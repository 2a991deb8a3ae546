import CallFlow.Number.Shortest
import Mathlib.Algebra.Order.Field.Power
import Mathlib.Data.Int.Log
import Mathlib.Data.Rat.Floor
import Mathlib.Tactic.FieldSimp
import Mathlib.Tactic.Positivity
import Mathlib.Tactic.Ring

/-!
# Rounding to double precision

The number nearest to a ratio depends on the value of the ratio alone (`rankOfRatio_congr`), and a
value that a double-precision number has is rounded to that number (`rankOfRatio_fraction`). So the
shortest decimal of a number reads back to it (`rankOfDecimal_shortest`): it is either one that was
tried, or the exact value.
-/

namespace CallFlow.Binary64

-- powers mean the same whether or not an algebra library is imported
attribute [local instance (high)] instPowNat

/-! ## The nearest whole number -/

/-- Rounding depends on the value of the ratio. -/
theorem roundHalfEven_mul (num den : Nat) {c : Nat} (hc : 0 < c) :
    roundHalfEven (num * c) (den * c) = roundHalfEven num den := by
  have hlow : 2 * (num % den * c) < den * c ↔ 2 * (num % den) < den := by
    rw [← Nat.mul_assoc]
    exact Nat.mul_lt_mul_right hc
  have hhigh : den * c < 2 * (num % den * c) ↔ den < 2 * (num % den) := by
    rw [← Nat.mul_assoc]
    exact Nat.mul_lt_mul_right hc
  unfold roundHalfEven
  simp only [Nat.mul_div_mul_right _ _ hc, Nat.mul_mod_mul_right, hlow, hhigh]

/-- A whole number is its own nearest one. -/
theorem roundHalfEven_of_mul (m : Nat) {den : Nat} (hden : 0 < den) :
    roundHalfEven (m * den) den = m := by
  unfold roundHalfEven
  simp [Nat.mul_div_cancel _ hden, hden]

/-! ## The magnitude of a ratio -/

/-- A power of two is not above a ratio. -/
theorem two_zpow_le_ratio_iff {num den : Nat} (hden : 0 < den) (d : Int) :
    (if 0 ≤ d then den * 2 ^ d.toNat ≤ num else den ≤ num * 2 ^ (-d).toNat) ↔
      (2 : ℚ) ^ d ≤ (num : ℚ) / den := by
  have hden' : (0 : ℚ) < den := by exact_mod_cast hden
  rw [le_div_iff₀ hden']
  split
  · rename_i hd
    obtain ⟨k, rfl⟩ := Int.eq_ofNat_of_zero_le hd
    rw [zpow_natCast, mul_comm]
    norm_cast
  · rename_i hd
    obtain ⟨k, hk⟩ := Int.eq_ofNat_of_zero_le (show 0 ≤ -d by omega)
    obtain rfl : d = -(k : Int) := by omega
    rw [neg_neg, zpow_neg, zpow_natCast, inv_mul_le_iff₀ (by positivity), mul_comm]
    norm_cast

/-- A power of two is not above a number exactly if its exponent is not above the logarithm. -/
theorem two_zpow_le_iff {r : ℚ} (hr : 0 < r) (d : Int) : 2 ^ d ≤ r ↔ d ≤ Int.log 2 r := by
  rw [← Int.zpow_le_iff_le_log Nat.one_lt_two hr, Nat.cast_two]

/-- A number is below a power of two exactly if its logarithm is below the exponent. -/
theorem lt_two_zpow_iff {r : ℚ} (hr : 0 < r) (d : Int) : r < 2 ^ d ↔ Int.log 2 r < d := by
  rw [← Int.lt_zpow_iff_log_lt Nat.one_lt_two hr, Nat.cast_two]

/-- The magnitude of a ratio of positive numbers is the logarithm of its value. -/
theorem binaryMagnitude_eq_log {num den : Nat} (hnum : 0 < num) (hden : 0 < den) :
    binaryMagnitude num den = Int.log 2 ((num : ℚ) / den) := by
  have hnum' : (0 : ℚ) < num := by exact_mod_cast hnum
  have hden' : (0 : ℚ) < den := by exact_mod_cast hden
  have hpos : (0 : ℚ) < (num : ℚ) / den := div_pos hnum' hden'
  -- the ratio lies between the powers of two around the difference of the two logarithms
  have hnumLow : (2 : ℚ) ^ (num.log2 : Int) ≤ num := by
    exact_mod_cast Nat.log2_self_le hnum.ne'
  have hnumHigh : (num : ℚ) < 2 ^ ((num.log2 : Int) + 1) := by
    exact_mod_cast Nat.lt_log2_self
  have hdenLow : (2 : ℚ) ^ (den.log2 : Int) ≤ den := by
    exact_mod_cast Nat.log2_self_le hden.ne'
  have hdenHigh : (den : ℚ) < 2 ^ ((den.log2 : Int) + 1) := by
    exact_mod_cast Nat.lt_log2_self
  have hhigh : (num : ℚ) / den < 2 ^ ((num.log2 : Int) - den.log2 + 1) := by
    rw [div_lt_iff₀ hden']
    calc (num : ℚ) < 2 ^ ((num.log2 : Int) + 1) := hnumHigh
      _ = 2 ^ ((num.log2 : Int) - den.log2 + 1) * 2 ^ (den.log2 : Int) := by
        rw [← zpow_add₀ (by norm_num)]
        congr 1
        ring
      _ ≤ 2 ^ ((num.log2 : Int) - den.log2 + 1) * den := by gcongr
  have hlow : (2 : ℚ) ^ ((num.log2 : Int) - den.log2 - 1) ≤ (num : ℚ) / den := by
    rw [le_div_iff₀ hden']
    calc (2 : ℚ) ^ ((num.log2 : Int) - den.log2 - 1) * den
        ≤ 2 ^ ((num.log2 : Int) - den.log2 - 1) * 2 ^ ((den.log2 : Int) + 1) := by gcongr
      _ = 2 ^ (num.log2 : Int) := by
        rw [← zpow_add₀ (by norm_num)]
        congr 1
        ring
      _ ≤ num := hnumLow
  rw [two_zpow_le_iff hpos] at hlow
  rw [lt_two_zpow_iff hpos] at hhigh
  unfold binaryMagnitude
  dsimp only
  simp only [two_zpow_le_ratio_iff hden, two_zpow_le_iff hpos]
  split <;> omega

/-! ## The nearest number -/

/-- Rounding a ratio depends on its value. -/
theorem rankOfRatio_mul (num : Nat) {den c : Nat} (hden : 0 < den) (hc : 0 < c) :
    rankOfRatio (num * c) (den * c) = rankOfRatio num den := by
  rcases Nat.eq_zero_or_pos num with rfl | hnum
  · simp [rankOfRatio]
  · have hmagnitude : binaryMagnitude (num * c) (den * c) = binaryMagnitude num den := by
      rw [binaryMagnitude_eq_log (Nat.mul_pos hnum hc) (Nat.mul_pos hden hc),
        binaryMagnitude_eq_log hnum hden]
      push_cast
      rw [mul_div_mul_right _ _ (by exact_mod_cast hc.ne')]
    unfold rankOfRatio
    rw [if_neg (Nat.mul_pos hnum hc).ne', if_neg hnum.ne', hmagnitude]
    simp only [Nat.mul_right_comm _ c, roundHalfEven_mul _ _ hc]

/-- Two ratios of one value are rounded to the same number. -/
theorem rankOfRatio_congr {num den num' den' : Nat} (hden : 0 < den) (hden' : 0 < den')
    (h : (num : ℚ) / den = num' / den') : rankOfRatio num den = rankOfRatio num' den' := by
  have hcross : num * den' = num' * den := by
    rw [div_eq_div_iff (by exact_mod_cast hden.ne') (by exact_mod_cast hden'.ne')] at h
    exact_mod_cast h
  calc rankOfRatio num den = rankOfRatio (num * den') (den * den') :=
        (rankOfRatio_mul num hden hden').symm
    _ = rankOfRatio (num' * den) (den' * den) := by rw [hcross, Nat.mul_comm den]
    _ = rankOfRatio num' den' := rankOfRatio_mul num' hden' hden

/-! ## The values of double-precision numbers -/

/-- The significand of a magnitude that is not zero is positive. -/
theorem significand_pos {rank : Nat} (h : 0 < rank) : 0 < significand rank := by
  unfold significand
  split <;> omega

/-- A finite magnitude is its significand times a power of two. -/
theorem ratio_fraction (rank : Nat) :
    (((fraction rank).1 : ℚ) / (fraction rank).2) = significand rank * 2 ^ scale rank := by
  unfold fraction
  dsimp only
  split
  · rename_i hscale
    obtain ⟨k, hk⟩ := Int.eq_ofNat_of_zero_le hscale
    rw [hk, zpow_natCast]
    simp
  · rename_i hscale
    obtain ⟨k, hk⟩ := Int.eq_ofNat_of_zero_le (show 0 ≤ -scale rank by omega)
    obtain hk' : scale rank = -(k : Int) := by omega
    rw [hk', neg_neg, zpow_neg, zpow_natCast, div_eq_mul_inv]
    simp

/-- A number that is not zero has a numerator that is not zero. -/
theorem fraction_fst_pos {rank : Nat} (h : 0 < rank) : 0 < (fraction rank).1 := by
  unfold fraction
  dsimp only
  split
  · exact Nat.mul_pos (significand_pos h) (Nat.two_pow_pos _)
  · exact significand_pos h

/-- No denominator is zero. -/
theorem fraction_snd_pos (rank : Nat) : 0 < (fraction rank).2 := by
  unfold fraction
  dsimp only
  split <;> simp

/-- The scale of a magnitude is what rounding makes of its value. -/
theorem scale_eq_max {rank : Nat} (h : 0 < rank) :
    max (binaryMagnitude (fraction rank).1 (fraction rank).2 - 52) (-1074) = scale rank := by
  have hpos : (0 : ℚ) < significand rank := by exact_mod_cast significand_pos h
  rw [binaryMagnitude_eq_log (fraction_fst_pos h) (fraction_snd_pos rank), ratio_fraction]
  have hvalue : (0 : ℚ) < significand rank * 2 ^ scale rank := by positivity
  by_cases hsmall : rank < 2 ^ (52 : Nat)
  · -- below the least normal number the significand has at most 52 bits
    have hsignificand : significand rank = rank := if_pos hsmall
    have hscale : scale rank = -1074 := by
      unfold scale
      omega
    have hlog : Int.log 2 ((significand rank : ℚ) * 2 ^ scale rank) < 52 + scale rank := by
      rw [← lt_two_zpow_iff hvalue, zpow_add₀ (by norm_num), hsignificand]
      gcongr
      exact_mod_cast hsmall
    omega
  · -- a normal number has 53 bits
    have hsignificand : significand rank = 2 ^ (52 : Nat) + rank % 2 ^ (52 : Nat) := if_neg hsmall
    have hscale : -1074 ≤ scale rank := by
      unfold scale
      omega
    have hlow : 52 + scale rank ≤ Int.log 2 ((significand rank : ℚ) * 2 ^ scale rank) := by
      rw [← two_zpow_le_iff hvalue, zpow_add₀ (by norm_num)]
      gcongr
      rw [hsignificand]
      exact_mod_cast Nat.le_add_right _ _
    have hhigh : Int.log 2 ((significand rank : ℚ) * 2 ^ scale rank) < 53 + scale rank := by
      rw [← lt_two_zpow_iff hvalue, zpow_add₀ (by norm_num)]
      gcongr
      rw [hsignificand]
      have : 2 ^ (52 : Nat) + rank % 2 ^ (52 : Nat) < 2 ^ (53 : Nat) := by omega
      exact_mod_cast this
    omega

/-- The value of a double-precision number is rounded to that number. -/
theorem rankOfRatio_fraction {rank : Nat} (h : rank < infiniteRank) :
    rankOfRatio (fraction rank).1 (fraction rank).2 = rank := by
  rcases Nat.eq_zero_or_pos rank with rfl | hpos
  · decide +kernel
  · have hscale := scale_eq_max hpos
    have hsignificand : (if 0 ≤ scale rank then
        roundHalfEven (fraction rank).1 ((fraction rank).2 * 2 ^ (scale rank).toNat)
        else roundHalfEven ((fraction rank).1 * 2 ^ (-scale rank).toNat) (fraction rank).2) =
        significand rank := by
      unfold fraction
      dsimp only
      split
      · rw [Nat.one_mul]
        exact roundHalfEven_of_mul _ (Nat.two_pow_pos _)
      · exact roundHalfEven_of_mul _ (Nat.two_pow_pos _)
    have hrank : (scale rank + 1074).toNat * 2 ^ (52 : Nat) + significand rank = rank := by
      unfold scale significand
      split <;> omega
    unfold rankOfRatio
    rw [if_neg (fraction_fst_pos hpos).ne']
    dsimp only
    rw [hscale, hsignificand, hrank, Nat.min_eq_left h.le]

/-! ## Decimals -/

/-- The digits of a multiple of a power of ten end with zeros. -/
theorem digits_mul_pow {m : Nat} (hm : 0 < m) :
    ∀ k : Nat, Text.digits (m * 10 ^ k) = Text.digits m ++ List.replicate k '0'
  | 0 => by simp
  | k + 1 => by
    have happend := Nat.toDigits_append_toDigits (b := 10) (n := m * 10 ^ k) (d := 0) (by decide)
      (Nat.mul_pos hm (Nat.pow_pos (by decide))) (by decide)
    have hstep : m * 10 ^ (k + 1) = 10 * (m * 10 ^ k) + 0 := by
      rw [Nat.pow_succ]
      ring
    rw [hstep, Text.digits, ← happend, ← Text.digits, digits_mul_pow hm k, List.replicate_succ',
      ← List.append_assoc]
    rfl

/-- A decimal whose point is near its digits is rounded like any ratio of its value. -/
theorem rankOfDecimal_eq_rankOfRatio {d : Decimal} (hdigits : 0 < d.significand)
    (hlow : -330 ≤ d.pointPlace) (hhigh : d.pointPlace ≤ 310) {num den : Nat} (hden : 0 < den)
    (h : (num : ℚ) / den = d.significand * 10 ^ d.exponent) :
    rankOfDecimal d = rankOfRatio num den := by
  unfold rankOfDecimal
  dsimp only
  rw [if_neg hdigits.ne', if_neg (by omega), if_neg (by omega)]
  split
  · rename_i hexponent
    obtain ⟨k, hk⟩ := Int.eq_ofNat_of_zero_le hexponent
    refine rankOfRatio_congr Nat.one_pos hden ?_
    rw [h, hk, zpow_natCast]
    simp
  · rename_i hexponent
    obtain ⟨k, hk⟩ := Int.eq_ofNat_of_zero_le (show 0 ≤ -d.exponent by omega)
    obtain hk' : d.exponent = -(k : Int) := by omega
    refine rankOfRatio_congr (Nat.pow_pos (by decide)) hden ?_
    rw [h, hk', neg_neg, zpow_neg, zpow_natCast, div_eq_mul_inv]
    simp

/-- Any decimal is a ratio of natural numbers. -/
theorem exists_ratio (m : Nat) (e : Int) :
    ∃ num den : Nat, 0 < den ∧ (num : ℚ) / den = m * 10 ^ e := by
  rcases Int.eq_nat_or_neg e with ⟨k, rfl | rfl⟩
  · exact ⟨m * 10 ^ k, 1, Nat.one_pos, by simp⟩
  · refine ⟨m, 10 ^ k, Nat.pow_pos (by decide), ?_⟩
    rw [zpow_neg, zpow_natCast, div_eq_mul_inv]
    simp

/-- A power of ten may be moved between the digits and the exponent. -/
theorem rankOfDecimal_mul_pow (m k : Nat) (e : Int) :
    rankOfDecimal ⟨m * 10 ^ k, e⟩ = rankOfDecimal ⟨m, e + k⟩ := by
  rcases Nat.eq_zero_or_pos m with rfl | hm
  · simp [rankOfDecimal]
  have hmul : 0 < m * 10 ^ k := Nat.mul_pos hm (Nat.pow_pos (by decide))
  have hplace : Decimal.pointPlace ⟨m * 10 ^ k, e⟩ = Decimal.pointPlace ⟨m, e + k⟩ := by
    unfold Decimal.pointPlace
    dsimp only
    rw [digits_mul_pow hm, List.length_append, List.length_replicate]
    push_cast
    ring
  by_cases hnear : -330 ≤ Decimal.pointPlace ⟨m, e + k⟩ ∧ Decimal.pointPlace ⟨m, e + k⟩ ≤ 310
  · obtain ⟨num, den, hden, hvalue⟩ := exists_ratio m (e + k)
    have hvalue' : (num : ℚ) / den = (m * 10 ^ k : Nat) * 10 ^ e := by
      rw [hvalue, zpow_add₀ (by norm_num), zpow_natCast]
      push_cast
      ring
    rw [rankOfDecimal_eq_rankOfRatio (d := ⟨m * 10 ^ k, e⟩) hmul (hplace ▸ hnear.1)
      (hplace ▸ hnear.2) hden hvalue',
      rankOfDecimal_eq_rankOfRatio (d := ⟨m, e + k⟩) hm hnear.1 hnear.2 hden hvalue]
  · -- far from its digits the point alone decides
    unfold rankOfDecimal
    dsimp only
    rw [if_neg hmul.ne', if_neg hm.ne', hplace]
    split
    · rfl
    · rw [if_pos (by omega), if_pos (by omega)]

/-- The point of a decimal says between which powers of ten it lies. -/
theorem ten_zpow_pointPlace {d : Decimal} (h : 0 < d.significand) :
    (10 : ℚ) ^ (d.pointPlace - 1) ≤ d.significand * 10 ^ d.exponent ∧
      (d.significand : ℚ) * 10 ^ d.exponent < 10 ^ d.pointPlace := by
  have hlength : 0 < (Text.digits d.significand).length := Nat.length_toDigits_pos
  have hbelow : d.significand < 10 ^ (Text.digits d.significand).length :=
    (Nat.length_toDigits_le_iff (by decide) hlength).mp le_rfl
  have habove : 10 ^ ((Text.digits d.significand).length - 1) ≤ d.significand := by
    by_contra hless
    rcases Nat.eq_zero_or_pos ((Text.digits d.significand).length - 1) with hone | hmore
    · rw [hone, Nat.pow_zero] at hless
      omega
    · have := (Nat.length_toDigits_le_iff (by decide) hmore).mpr (Nat.lt_of_not_le hless)
      unfold Text.digits at hlength
      unfold Text.digits at this
      omega
  have hten : (0 : ℚ) < 10 ^ d.exponent := by positivity
  unfold Decimal.pointPlace
  constructor
  · have hsplit : ((Text.digits d.significand).length : Int) + d.exponent - 1 =
        ((Text.digits d.significand).length - 1 : Nat) + d.exponent := by omega
    rw [hsplit, zpow_add₀ (by norm_num), zpow_natCast]
    gcongr
    exact_mod_cast habove
  · rw [zpow_add₀ (by norm_num), zpow_natCast]
    gcongr
    exact_mod_cast hbelow

/-- The exact decimal of a number has its value. -/
theorem value_exactDecimal (rank : Nat) : ((exactDecimal rank).significand : ℚ) *
    10 ^ (exactDecimal rank).exponent = significand rank * 2 ^ scale rank := by
  unfold exactDecimal
  dsimp only
  split
  · rename_i hscale
    obtain ⟨k, hk⟩ := Int.eq_ofNat_of_zero_le hscale
    rw [hk, zpow_natCast]
    simp
  · rename_i hscale
    obtain ⟨k, hk⟩ := Int.eq_ofNat_of_zero_le (show 0 ≤ -scale rank by omega)
    obtain hk' : scale rank = -(k : Int) := by omega
    have hten : (10 : ℚ) ^ k = 2 ^ k * 5 ^ k := by
      rw [← mul_pow]
      norm_num
    rw [hk', neg_neg, Int.toNat_natCast, zpow_neg, zpow_neg, zpow_natCast, zpow_natCast, hten]
    push_cast
    field_simp

/-- The exact decimal of a number that is not zero is not zero. -/
theorem significand_exactDecimal_pos {rank : Nat} (h : 0 < rank) :
    0 < (exactDecimal rank).significand := by
  unfold exactDecimal
  dsimp only
  split
  · exact Nat.mul_pos (significand_pos h) (Nat.pow_pos (by decide))
  · exact Nat.mul_pos (significand_pos h) (Nat.pow_pos (by decide))

/-- Powers of natural numbers are compared as rational ones. -/
theorem two_zpow_lt_ten_zpow {a b : Nat} (h : 2 ^ a < 10 ^ b) :
    (2 : ℚ) ^ (a : Int) < 10 ^ (b : Int) := by
  rw [zpow_natCast, zpow_natCast]
  exact_mod_cast h

/-- The value of a finite number that is not zero is neither tiny nor huge. -/
theorem value_bounds {rank : Nat} (hpos : 0 < rank) (h : rank < infiniteRank) :
    (10 : ℚ) ^ (-331 : Int) < significand rank * 2 ^ scale rank ∧
      (significand rank : ℚ) * 2 ^ scale rank < 10 ^ (310 : Int) := by
  have hone : (1 : ℚ) ≤ significand rank := by exact_mod_cast significand_pos hpos
  have hbits : (significand rank : ℚ) < 2 ^ (53 : Int) := by
    have : significand rank < 2 ^ (53 : Nat) := by
      unfold significand
      split <;> omega
    exact_mod_cast this
  have hscale : -1074 ≤ scale rank ∧ scale rank ≤ 971 := by
    unfold infiniteRank at h
    unfold scale
    omega
  have htiny : (2 : ℚ) ^ (1074 : Int) < 10 ^ (331 : Int) :=
    two_zpow_lt_ten_zpow (a := 1074) (b := 331) (by decide +kernel)
  have hhuge : (2 : ℚ) ^ (1024 : Int) < 10 ^ (310 : Int) :=
    two_zpow_lt_ten_zpow (a := 1024) (b := 310) (by decide +kernel)
  constructor
  · calc (10 : ℚ) ^ (-331 : Int) < 2 ^ (-1074 : Int) := by
          rw [zpow_neg, zpow_neg]
          exact inv_strictAnti₀ (by positivity) htiny
      _ ≤ 2 ^ scale rank := zpow_le_zpow_right₀ (by norm_num) hscale.1
      _ = 1 * 2 ^ scale rank := (one_mul _).symm
      _ ≤ significand rank * 2 ^ scale rank := by gcongr
  · calc (significand rank : ℚ) * 2 ^ scale rank
        < 2 ^ (53 : Int) * 2 ^ scale rank := by gcongr
      _ = 2 ^ (53 + scale rank) := (zpow_add₀ (by norm_num) _ _).symm
      _ ≤ 2 ^ (1024 : Int) := zpow_le_zpow_right₀ (by norm_num) (by omega)
      _ < 10 ^ (310 : Int) := hhuge

/-- The exact decimal of a number reads back to it. -/
theorem rankOfDecimal_exactDecimal {rank : Nat} (h : rank < infiniteRank) :
    rankOfDecimal (exactDecimal rank) = rank := by
  rcases Nat.eq_zero_or_pos rank with rfl | hpos
  · decide +kernel
  have hdigits := significand_exactDecimal_pos hpos
  obtain ⟨hlow, hhigh⟩ := value_bounds hpos h
  obtain ⟨hbelow, habove⟩ := ten_zpow_pointPlace hdigits
  rw [value_exactDecimal] at hbelow habove
  have hplaceLow : -331 < (exactDecimal rank).pointPlace :=
    (zpow_lt_zpow_iff_right₀ (by norm_num)).mp (hlow.trans habove)
  have hplaceHigh : (exactDecimal rank).pointPlace - 1 < 310 :=
    (zpow_lt_zpow_iff_right₀ (by norm_num)).mp (hbelow.trans_lt hhigh)
  rw [rankOfDecimal_eq_rankOfRatio hdigits (by omega) (by omega) (fraction_snd_pos rank)
    ((ratio_fraction rank).trans (value_exactDecimal rank).symm)]
  exact rankOfRatio_fraction h

/-! ## Shortest decimals -/

/-- Of two neighbours one is taken. -/
theorem nearer_eq_or (low twice unit : Nat) :
    nearer low twice unit = low ∨ nearer low twice unit = low + 1 := by
  unfold nearer
  split
  · exact .inl rfl
  · split
    · exact .inr rfl
    · omega

/-- A decimal that is taken from a grid reads back. -/
theorem rankOfDecimal_of_onGrid? {rank num den : Nat} {grid : Int} {d : Decimal}
    (h : onGrid? rank num den grid = some d) : rankOfDecimal d = rank := by
  unfold onGrid? at h
  dsimp only at h
  split at h
  · rename_i hlow hnext
    obtain rfl := Option.some.inj h
    rcases nearer_eq_or _ _ _ with heq | heq
    · rw [heq]
      exact of_decide_eq_true hlow
    · rw [heq]
      exact of_decide_eq_true hnext
  · rename_i hlow hnext
    obtain rfl := Option.some.inj h
    exact of_decide_eq_true hlow
  · rename_i hlow hnext
    obtain rfl := Option.some.inj h
    exact of_decide_eq_true hnext
  · cases h

/-- The shortest decimal of a number reads back to it. -/
theorem rankOfDecimal_shortest {rank : Nat} (h : rank < infiniteRank) :
    rankOfDecimal (shortest rank) = rank := by
  unfold shortest
  dsimp only
  cases hgrid : (List.range 17).findSome? fun (k : Nat) =>
      onGrid? rank (fraction rank).1 (fraction rank).2
        (decimalPlace (fraction rank).1 (fraction rank).2 - (k + 1 : Nat)) with
  | none => exact rankOfDecimal_exactDecimal h
  | some d =>
    obtain ⟨k, -, hk⟩ := List.exists_of_findSome?_eq_some hgrid
    exact rankOfDecimal_of_onGrid? hk

end CallFlow.Binary64
