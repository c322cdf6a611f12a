import Bindery.Number.Shortest
import Mathlib.Algebra.Order.Field.Power
import Mathlib.Data.Int.Log
import Mathlib.Data.Nat.Cast.Field
import Mathlib.Data.Nat.Cast.Order.Field
import Mathlib.Data.Rat.Floor
import Mathlib.Tactic.FieldSimp
import Mathlib.Tactic.Linarith
import Mathlib.Tactic.NormNum
import Mathlib.Tactic.Positivity
import Mathlib.Tactic.Ring

/-!
# Rounding to binary64 precision

Which binary64 number is nearest to a quotient depends on the value of the quotient alone, and a
binary64 number is nearest to itself. So every decimal with the same value as the shortest one that
reads back to a number reads back to it too. Main statements: `nearestRank_congr`,
`nearestRank_ratio`, `rankOfDecimal_mul_pow`, `rankOfDecimal_shortest`.
-/

namespace Bindery.Binary64

/-! ## Rounding to whole numbers -/

section Whole

variable {a b c d : Nat}

/-- Rounding does not depend on a common factor. -/
theorem roundHalfEven_mul_right {k : Nat} (hk : 0 < k) (num den : Nat) :
    roundHalfEven (num * k) (den * k) = roundHalfEven num den := by
  have lt (m n : Nat) : 2 * (m * k) < n * k ↔ 2 * m < n := by
    rw [← Nat.mul_assoc, Nat.mul_lt_mul_right hk]
  have gt (m n : Nat) : n * k < 2 * (m * k) ↔ n < 2 * m := by
    rw [← Nat.mul_assoc, Nat.mul_lt_mul_right hk]
  simp only [roundHalfEven, Nat.mul_div_mul_right _ _ hk, Nat.mul_mod_mul_right, lt, gt]

/-- Quotients of one value are rounded to one number. -/
theorem roundHalfEven_congr (hb : 0 < b) (hd : 0 < d) (h : (a : ℚ) / b = c / d) :
    roundHalfEven a b = roundHalfEven c d := by
  have cross : a * d = c * b := by
    rw [div_eq_div_iff (by positivity) (by positivity)] at h
    exact_mod_cast h
  rw [← roundHalfEven_mul_right hd a b, cross, Nat.mul_comm b d, roundHalfEven_mul_right hb]

/-- A whole number needs no rounding. -/
theorem roundHalfEven_of_div_eq (hb : 0 < b) (h : (a : ℚ) / b = c) : roundHalfEven a b = c := by
  rw [roundHalfEven_congr hb Nat.one_pos (c := c) (by rw [h, Nat.cast_one, div_one])]
  simp [roundHalfEven, Nat.mod_one]

end Whole

/-! ## Exponents -/

section Exponents

variable {num den : Nat}

/-- Rescaling divides by a power of two. -/
theorem rescale_div (num den : Nat) (q : Int) :
    ((rescale num den q).1 : ℚ) / (rescale num den q).2 = num / den / 2 ^ q := by
  rw [rescale]
  split
  · next whole =>
    obtain ⟨k, rfl⟩ := Int.eq_ofNat_of_zero_le whole
    simp [div_div]
  · next fraction =>
    obtain ⟨k, hk⟩ := Int.eq_ofNat_of_zero_le (by omega : 0 ≤ -q)
    obtain rfl : q = -k := by omega
    simp [div_mul_eq_mul_div]

/-- The denominator stays positive. -/
theorem rescale_pos (hd : 0 < den) (num : Nat) (q : Int) : 0 < (rescale num den q).2 := by
  rw [rescale]
  split
  · exact Nat.mul_pos hd (Nat.pow_pos Nat.two_pos)
  · exact hd

/-- A quotient lies between powers of two that differ by two. -/
theorem zpow_log2_bounds (hn : 0 < num) (hd : 0 < den) :
    (2 : ℚ) ^ ((num.log2 : Int) - den.log2 - 1) ≤ num / den ∧
      (num : ℚ) / den < 2 ^ ((num.log2 : Int) - den.log2 + 1) := by
  have lowNum : (2 : ℚ) ^ num.log2 ≤ num := by exact_mod_cast Nat.log2_self_le hn.ne'
  have highNum : (num : ℚ) < 2 ^ (num.log2 + 1) := by exact_mod_cast Nat.lt_log2_self
  have lowDen : (2 : ℚ) ^ den.log2 ≤ den := by exact_mod_cast Nat.log2_self_le hd.ne'
  have highDen : (den : ℚ) < 2 ^ (den.log2 + 1) := by exact_mod_cast Nat.lt_log2_self
  constructor
  · calc (2 : ℚ) ^ ((num.log2 : Int) - den.log2 - 1)
      _ = 2 ^ num.log2 / 2 ^ (den.log2 + 1) := by
        rw [sub_sub, zpow_sub₀ two_ne_zero]
        norm_cast
      _ ≤ num / den := div_le_div₀ (by positivity) lowNum (by positivity) highDen.le
  · calc (num : ℚ) / den
      _ < 2 ^ (num.log2 + 1) / 2 ^ den.log2 :=
        div_lt_div₀ highNum lowDen (by positivity) (by positivity)
      _ = 2 ^ ((num.log2 : Int) - den.log2 + 1) := by
        rw [sub_add_eq_add_sub, zpow_sub₀ two_ne_zero]
        norm_cast

/-- The exponent follows from the greatest power of two in the quotient. -/
theorem exponentOf_eq (hn : 0 < num) (hd : 0 < den) :
    exponentOf num den = max (-1074) (Int.log 2 ((num : ℚ) / den) - 52) := by
  have positive : (0 : ℚ) < num / den := by positivity
  obtain ⟨low, high⟩ := zpow_log2_bounds hn hd
  rw [← Nat.cast_ofNat, Int.zpow_le_iff_le_log Nat.one_lt_two positive] at low
  rw [← Nat.cast_ofNat, Int.lt_zpow_iff_log_lt Nat.one_lt_two positive] at high
  -- The mantissa at the guessed exponent is too small just if the quotient is in the lower half.
  have small (guess : Int) : (rescale num den guess).1 / (rescale num den guess).2 < 2 ^ 52 ↔
      Int.log 2 ((num : ℚ) / den) < guess + 52 := by
    have hd' : (0 : ℚ) < (rescale num den guess).2 := by exact_mod_cast rescale_pos hd num guess
    rw [← Int.lt_zpow_iff_log_lt Nat.one_lt_two positive,
      Nat.div_lt_iff_lt_mul (rescale_pos hd num guess), Nat.cast_ofNat, zpow_add₀ two_ne_zero,
      ← div_lt_iff₀' (by positivity : (0 : ℚ) < 2 ^ guess), ← rescale_div, div_lt_iff₀ hd']
    norm_cast
  rw [exponentOf]
  simp only [Nat.pow_eq, small]
  congr 1
  split <;> omega

/-- Quotients of one value have one exponent. -/
theorem exponentOf_congr {num' den' : Nat} (hn : 0 < num) (hd : 0 < den) (hn' : 0 < num')
    (hd' : 0 < den') (h : (num : ℚ) / den = num' / den') :
    exponentOf num den = exponentOf num' den' := by
  rw [exponentOf_eq hn hd, exponentOf_eq hn' hd', h]

end Exponents

/-! ## Ranks of quotients -/

section Ranks

variable {a b c d rank : Nat}

/-- Quotients of one value have one nearest rank. -/
theorem nearestRank_congr (hb : 0 < b) (hd : 0 < d) (h : (a : ℚ) / b = c / d) :
    nearestRank a b = nearestRank c d := by
  by_cases ha : a = 0
  · have hc : c = 0 := by
      rw [ha, Nat.cast_zero, zero_div, eq_comm, div_eq_zero_iff] at h
      exact_mod_cast h.resolve_right (by positivity)
    rw [ha, hc, nearestRank, nearestRank, if_pos rfl, if_pos rfl]
  · have hc : c ≠ 0 := by
      rintro rfl
      rw [Nat.cast_zero, zero_div, div_eq_zero_iff] at h
      exact ha (by exact_mod_cast h.resolve_right (by positivity))
    have exponent := exponentOf_congr (Nat.pos_of_ne_zero ha) hb (Nat.pos_of_ne_zero hc) hd h
    have mantissa (q : Int) : roundHalfEven (rescale a b q).1 (rescale a b q).2 =
        roundHalfEven (rescale c d q).1 (rescale c d q).2 :=
      roundHalfEven_congr (rescale_pos hb a q) (rescale_pos hd c q) (by
        rw [rescale_div, rescale_div, h])
    simp only [nearestRank, if_neg ha, if_neg hc, exponent, mantissa]

/-- The magnitude of a rank. -/
def magnitude (rank : Nat) : ℚ := (ratio rank).1 / (ratio rank).2

/-- The magnitude of a rank is its mantissa times a power of two. -/
theorem magnitude_eq (rank : Nat) : magnitude rank = (scale rank).1 * 2 ^ (scale rank).2 := by
  rw [magnitude, ratio]
  generalize scale rank = scaled
  obtain ⟨m, q⟩ := scaled
  dsimp only
  split
  · next whole =>
    obtain ⟨k, rfl⟩ := Int.eq_ofNat_of_zero_le whole
    simp
  · next fraction =>
    obtain ⟨k, hk⟩ := Int.eq_ofNat_of_zero_le (by omega : 0 ≤ -q)
    obtain rfl : q = -k := by omega
    simp [div_eq_mul_inv]

/-- The denominator of a rank is positive. -/
theorem ratio_pos (rank : Nat) : 0 < (ratio rank).2 := by
  rw [ratio]
  dsimp only
  split
  · exact Nat.one_pos
  · exact Nat.pow_pos Nat.two_pos

/-- A rank is in the subnormal binade, or has a mantissa with its leading bit. -/
theorem scale_cases (rank : Nat) :
    (rank < 2 ^ 52 ∧ scale rank = (rank, -1074)) ∨
      ∃ binade low, low < 2 ^ 52 ∧ rank = 2 ^ 52 * (binade + 1) + low ∧
        scale rank = (2 ^ 52 + low, (binade : Int) - 1074) := by
  rw [scale, Nat.pow_eq]
  by_cases subnormal : rank / 2 ^ 52 = 0
  · refine .inl ⟨(Nat.div_eq_zero_iff_lt (by decide)).1 subnormal, ?_⟩
    simp only [subnormal, if_true]
  · refine .inr ⟨rank / 2 ^ 52 - 1, rank % 2 ^ 52, Nat.mod_lt _ (by decide), ?_, ?_⟩
    · rw [Nat.sub_add_cancel (Nat.pos_of_ne_zero subnormal), Nat.div_add_mod]
    · simp only [subnormal, if_false, Prod.mk.injEq, true_and]
      omega

/-- A quotient that is a whole number of units at its exponent has that mantissa. -/
theorem nearestRank_of_div_eq {m : Nat} {q : Int} (ha : 0 < a) (hb : 0 < b)
    (exponent : exponentOf a b = q) (h : (a : ℚ) / b = m * 2 ^ q) :
    nearestRank a b = min (m + (q + 1074).toNat * 2 ^ 52) topRank := by
  have mantissa : roundHalfEven (rescale a b q).1 (rescale a b q).2 = m := by
    refine roundHalfEven_of_div_eq (rescale_pos hb a q) ?_
    rw [rescale_div, h, mul_div_assoc, div_self (by positivity), mul_one]
  simp only [nearestRank, if_neg ha.ne', exponent, mantissa, Nat.pow_eq]

/-- A mantissa below a power of two bounds the exponent. -/
theorem log_mul_zpow_lt {m k : Nat} (positive : 0 < m) (high : m < 2 ^ k) (q : Int) :
    Int.log 2 ((m : ℚ) * 2 ^ q) < k + q := by
  have high : (m : ℚ) < 2 ^ k := by exact_mod_cast high
  rw [← Int.lt_zpow_iff_log_lt Nat.one_lt_two (by positivity), Nat.cast_ofNat,
    zpow_add₀ two_ne_zero, zpow_natCast]
  gcongr

/-- A mantissa between neighbouring powers of two determines the exponent. -/
theorem log_mul_zpow {m k : Nat} (low : 2 ^ k ≤ m) (high : m < 2 ^ (k + 1)) (q : Int) :
    Int.log 2 ((m : ℚ) * 2 ^ q) = k + q := by
  have positive : 0 < m := lt_of_lt_of_le (Nat.two_pow_pos k) low
  have upper := log_mul_zpow_lt positive high q
  have low : (2 : ℚ) ^ k ≤ m := by exact_mod_cast low
  have lower : (k : Int) + q ≤ Int.log 2 ((m : ℚ) * 2 ^ q) := by
    rw [← Int.zpow_le_iff_le_log Nat.one_lt_two (by positivity), Nat.cast_ofNat,
      zpow_add₀ two_ne_zero, zpow_natCast]
    gcongr
  omega

/-- Only zero has no magnitude. -/
theorem magnitude_pos (h : 0 < rank) : 0 < magnitude rank := by
  have mantissa : 0 < (scale rank).1 := by
    obtain ⟨-, scaled⟩ | ⟨binade, low, -, -, scaled⟩ := scale_cases rank
    · rwa [scaled]
    · rw [scaled]
      positivity
  rw [magnitude_eq]
  positivity

/-- Only zero has no numerator. -/
theorem ratio_fst_pos (h : 0 < rank) : 0 < (ratio rank).1 := by
  have positive := magnitude_pos h
  refine Nat.pos_of_ne_zero fun zero => ?_
  rw [magnitude, zero, Nat.cast_zero, zero_div] at positive
  exact lt_irrefl _ positive

/-- A number is the nearest one to itself. -/
theorem nearestRank_ratio (h : rank ≤ topRank) :
    nearestRank (ratio rank).1 (ratio rank).2 = rank := by
  obtain rfl | positive := Nat.eq_zero_or_pos rank
  · rfl
  have hn := ratio_fst_pos positive
  have hd := ratio_pos rank
  have value := magnitude_eq rank
  rw [magnitude] at value
  obtain ⟨subnormal, scaled⟩ | ⟨binade, low, small, split, scaled⟩ := scale_cases rank
  · rw [scaled] at value
    have exponent : exponentOf (ratio rank).1 (ratio rank).2 = -1074 := by
      rw [exponentOf_eq hn hd, value]
      have bound := log_mul_zpow_lt positive subnormal (-1074)
      dsimp only
      omega
    rw [nearestRank_of_div_eq hn hd exponent value, neg_add_cancel, Int.toNat_zero, Nat.zero_mul,
      Nat.add_zero, Nat.min_eq_left h]
  · rw [scaled] at value
    have exponent : exponentOf (ratio rank).1 (ratio rank).2 = (binade : Int) - 1074 := by
      rw [exponentOf_eq hn hd, value, log_mul_zpow (k := 52) (by omega) (by omega)]
      omega
    rw [nearestRank_of_div_eq hn hd exponent value, Int.sub_add_cancel, Int.toNat_natCast]
    omega

end Ranks

/-! ## Ranks of decimals -/

section Decimals

/-- Zeros behind a number count as digits. -/
theorem digitCount_mul_pow {n : Nat} (h : 0 < n) (k : Nat) :
    digitCount (n * 10 ^ k) = digitCount n + k := by
  induction k with
  | zero => rw [Nat.pow_zero, Nat.mul_one, Nat.add_zero]
  | succ k ih =>
    have whole : 10 * (n * 10 ^ k) = n * 10 ^ (k + 1) := by rw [Nat.pow_succ]; ring
    have shifted := Nat.toDigits_append_toDigits (b := 10) (n := n * 10 ^ k) (d := 0) (by decide)
      (by positivity) (by decide)
    rw [Nat.add_zero, whole] at shifted
    rw [digitCount, ← shifted, List.length_append, ← digitCount, ih]
    rfl

/-- A number lies between the powers of ten that its digits give. -/
theorem digitCount_bounds {n : Nat} (h : 0 < n) :
    (10 : ℚ) ^ ((digitCount n : Int) - 1) ≤ n ∧ (n : ℚ) < 10 ^ (digitCount n : Int) := by
  have some : 0 < digitCount n := Nat.length_toDigits_pos
  constructor
  · obtain ⟨k, hk⟩ : ∃ k, digitCount n = k + 1 := ⟨digitCount n - 1, by omega⟩
    have low : 10 ^ k ≤ n := by
      by_contra small
      rcases Nat.eq_zero_or_pos k with rfl | positive
      · rw [Nat.pow_zero] at small
        exact small h
      · have short : digitCount n ≤ k :=
          (Nat.length_toDigits_le_iff (by decide) positive).2 (Nat.lt_of_not_le small)
        omega
    rw [hk, Nat.cast_succ, add_sub_cancel_right]
    exact_mod_cast low
  · have high : n < 10 ^ digitCount n := (Nat.length_toDigits_le_iff (by decide) some).1 le_rfl
    exact_mod_cast high

/-- The rank of a decimal that is neither too large nor too small is that of any quotient with its
value. -/
theorem rankOfDecimal_eq {digits a b : Nat} {exponent : Int} (positive : 0 < digits)
    (low : -330 ≤ (digitCount digits : Int) + exponent)
    (high : (digitCount digits : Int) + exponent ≤ 310) (hb : 0 < b)
    (h : (a : ℚ) / b = digits * 10 ^ exponent) :
    rankOfDecimal digits exponent = nearestRank a b := by
  rw [rankOfDecimal]
  simp only [Nat.pow_eq]
  rw [if_neg (by omega), if_neg (by omega)]
  split
  · next whole =>
    obtain ⟨k, rfl⟩ := Int.eq_ofNat_of_zero_le whole
    refine nearestRank_congr Nat.one_pos hb ?_
    rw [h]
    simp
  · next fraction =>
    obtain ⟨k, hk⟩ := Int.eq_ofNat_of_zero_le (by omega : 0 ≤ -exponent)
    obtain rfl : exponent = -k := by omega
    refine nearestRank_congr (by positivity) hb ?_
    rw [h]
    simp [div_eq_mul_inv]

/-- Every decimal is a quotient. -/
theorem exists_div_eq (digits : Nat) (exponent : Int) :
    ∃ a b : Nat, 0 < b ∧ (a : ℚ) / b = digits * 10 ^ exponent := by
  obtain ⟨k, rfl | rfl⟩ := exponent.eq_nat_or_neg
  · exact ⟨digits * 10 ^ k, 1, Nat.one_pos, by simp⟩
  · exact ⟨digits, 10 ^ k, by positivity, by simp [div_eq_mul_inv]⟩

/-- Zeros behind a decimal do not change its rank. -/
theorem rankOfDecimal_mul_pow {digits : Nat} (positive : 0 < digits) (k : Nat) (exponent : Int) :
    rankOfDecimal (digits * 10 ^ k) (exponent - k) = rankOfDecimal digits exponent := by
  have positive' : 0 < digits * 10 ^ k := by positivity
  have top : (digitCount (digits * 10 ^ k) : Int) + (exponent - k) =
      digitCount digits + exponent := by
    rw [digitCount_mul_pow positive]
    push_cast
    ring
  by_cases low : (digitCount digits : Int) + exponent < -330
  · rw [rankOfDecimal, rankOfDecimal, top]
    simp only [low, or_true, if_true]
  by_cases high : 310 < (digitCount digits : Int) + exponent
  · rw [rankOfDecimal, rankOfDecimal, top]
    simp only [low, high, positive.ne', positive'.ne', or_self, if_true, if_false]
  obtain ⟨a, b, hb, value⟩ := exists_div_eq digits exponent
  have value' : (a : ℚ) / b = (digits * 10 ^ k : Nat) * 10 ^ (exponent - k) := by
    rw [value, zpow_sub₀ (by norm_num), zpow_natCast, Nat.cast_mul, Nat.cast_pow]
    field_simp
    norm_num
  rw [rankOfDecimal_eq positive (by omega) (by omega) hb value,
    rankOfDecimal_eq positive' (by omega) (by omega) hb value']

/-! ## Decimals that read back -/

variable {rank num den : Nat} {point : Int} {count : Nat} {decimal : Decimal}

/-- What is found on a grid is one of the two neighbours, and it reads back; something is found if
the lower one reads back. -/
theorem onGrid?_cases (rank num den : Nat) (point : Int) (count : Nat) :
    (∀ decimal, onGrid? rank num den point count = some decimal →
        rankOfDecimal decimal.digits decimal.exponent = rank) ∧
      (rankOfDecimal ((gridRatio num den (count - point)).1 / (gridRatio num den (count - point)).2)
        (-((count : Int) - point)) = rank → (onGrid? rank num den point count).isSome = true) := by
  rw [onGrid?]
  dsimp only
  generalize gridRatio num den (count - point) = scaled
  obtain ⟨n, d⟩ := scaled
  dsimp only
  generalize -((count : Int) - point) = exponent
  generalize n / d = low
  generalize (decide (2 * (n % d) < d) || 2 * (n % d) == d && low % 2 == 0) = nearer
  by_cases lowReads : rankOfDecimal low exponent = rank
  all_goals by_cases highReads : rankOfDecimal (low + 1) exponent = rank
  · simp only [lowReads, highReads, beq_self_eq_true, Bool.and_self, if_true]
    refine ⟨fun decimal h => ?_, fun _ => rfl⟩
    cases h
    cases nearer
    · exact highReads
    · exact lowReads
  · simp [lowReads, highReads]
  · simp [lowReads, highReads]
  · simp [lowReads, highReads]

/-- No mantissa has more than 53 bits, and exponents have bounds. -/
theorem scale_bounds (positive : 0 < rank) (finite : rank < topRank) :
    0 < (scale rank).1 ∧ (scale rank).1 < 2 ^ 53 ∧ -1074 ≤ (scale rank).2 ∧
      (scale rank).2 ≤ 971 := by
  obtain ⟨subnormal, scaled⟩ | ⟨binade, low, small, split, scaled⟩ := scale_cases rank
  · rw [scaled]
    dsimp only
    omega
  · have last : binade ≤ 2045 := by
      rw [topRank, Nat.pow_eq] at finite
      omega
    rw [scaled]
    dsimp only
    omega

/-- Magnitudes lie between two powers of two. -/
theorem magnitude_bounds (positive : 0 < rank) (finite : rank < topRank) :
    (2 : ℚ) ^ (-1074 : Int) ≤ magnitude rank ∧ magnitude rank < 2 ^ (1024 : Int) := by
  obtain ⟨some, bits, least, most⟩ := scale_bounds positive finite
  have some : (1 : ℚ) ≤ (scale rank).1 := by exact_mod_cast some
  have bits : ((scale rank).1 : ℚ) < 2 ^ (53 : Int) := by
    rw [zpow_ofNat]
    exact_mod_cast bits
  have base : (1 : ℚ) ≤ 2 := one_le_two
  have least := zpow_le_zpow_right₀ base least
  have most := zpow_le_zpow_right₀ base most
  rw [magnitude_eq]
  constructor
  · calc (2 : ℚ) ^ (-1074 : Int)
      _ ≤ 2 ^ (scale rank).2 := least
      _ ≤ (scale rank).1 * 2 ^ (scale rank).2 := le_mul_of_one_le_left (by positivity) some
  · calc ((scale rank).1 : ℚ) * 2 ^ (scale rank).2
      _ < 2 ^ (53 : Int) * 2 ^ (scale rank).2 := by gcongr
      _ ≤ 2 ^ (53 : Int) * 2 ^ (971 : Int) := by gcongr
      _ = 2 ^ (1024 : Int) := by rw [← zpow_add₀ two_ne_zero]; rfl

/-- Decimals of 310 digits before the point are beyond all magnitudes. -/
theorem two_zpow_lt : (2 : ℚ) ^ (1024 : Int) < 10 ^ (310 : Int) := by
  have whole : 2 ^ 1024 < 10 ^ 310 := by decide +kernel
  rw [zpow_ofNat, zpow_ofNat]
  exact_mod_cast whole

/-- Decimals that begin 331 places behind the point are below all magnitudes. -/
theorem lt_two_zpow : (10 : ℚ) ^ (-331 : Int) < 2 ^ (-1074 : Int) := by
  have whole : 2 ^ 1074 < 10 ^ 331 := by decide +kernel
  rw [zpow_neg, zpow_neg, zpow_ofNat, zpow_ofNat]
  refine inv_strictAnti₀ (by positivity) ?_
  exact_mod_cast whole

/-- A decimal of the value of a rank reads back to it. -/
theorem rankOfDecimal_of_magnitude {digits : Nat} {exponent : Int} (positive : 0 < rank)
    (finite : rank < topRank) (h : magnitude rank = digits * 10 ^ exponent) :
    rankOfDecimal digits exponent = rank := by
  have some : 0 < digits := by
    refine Nat.pos_of_ne_zero fun zero => (magnitude_pos positive).ne' ?_
    rw [h, zero, Nat.cast_zero, zero_mul]
  obtain ⟨least, most⟩ := magnitude_bounds positive finite
  obtain ⟨low, high⟩ := digitCount_bounds some
  have split (n : Int) : (10 : ℚ) ^ (n + exponent) = 10 ^ n * 10 ^ exponent :=
    zpow_add₀ (by norm_num) n exponent
  have notLarge : (digitCount digits : Int) - 1 + exponent < 310 := by
    rw [← zpow_lt_zpow_iff_right₀ (a := (10 : ℚ)) (by norm_num)]
    calc (10 : ℚ) ^ ((digitCount digits : Int) - 1 + exponent)
      _ ≤ digits * 10 ^ exponent := by
        rw [split]
        gcongr
      _ < 2 ^ (1024 : Int) := h ▸ most
      _ < 10 ^ (310 : Int) := two_zpow_lt
  have notSmall : -331 < (digitCount digits : Int) + exponent := by
    rw [← zpow_lt_zpow_iff_right₀ (a := (10 : ℚ)) (by norm_num)]
    calc (10 : ℚ) ^ (-331 : Int)
      _ < 2 ^ (-1074 : Int) := lt_two_zpow
      _ ≤ digits * 10 ^ exponent := h ▸ least
      _ < 10 ^ ((digitCount digits : Int) + exponent) := by
        rw [split]
        gcongr
  rw [rankOfDecimal_eq some (by omega) (by omega) (ratio_pos rank) h, nearestRank_ratio finite.le]

/-! ## The search for the shortest decimal -/

/-- A number has at least as many digits before the point as it is said to have. -/
theorem zpow_pointOf_le (positive : 0 < rank) (finite : rank < topRank) :
    (10 : ℚ) ^ (pointOf (ratio rank).1 (ratio rank).2 - 1) ≤ magnitude rank := by
  obtain ⟨least, -⟩ := magnitude_bounds positive finite
  have hd := ratio_pos rank
  rw [magnitude] at least ⊢
  generalize (ratio rank).1 = num at least ⊢
  generalize (ratio rank).2 = den at least hd ⊢
  have hd' : (0 : ℚ) < den := by exact_mod_cast hd
  rw [pointOf]
  split
  · next large =>
    obtain ⟨low, -⟩ := digitCount_bounds (Nat.div_pos large hd)
    exact low.trans Nat.cast_div_le
  · split
    · next k found =>
      have behind : den ≤ num * 10 ^ (k + 1) := by simpa using List.find?_some found
      have behind : (den : ℚ) ≤ num * 10 ^ (k + 1) := by exact_mod_cast behind
      rw [show -(k : Int) - 1 = -((k + 1 : Nat) : Int) by omega, zpow_neg, zpow_natCast,
        le_div_iff₀ hd', inv_mul_le_iff₀ (by positivity), mul_comm]
      exact behind
    · calc (10 : ℚ) ^ (-400 - 1 : Int)
        _ ≤ 10 ^ (-331 : Int) := zpow_le_zpow_right₀ (by norm_num) (by norm_num)
        _ ≤ num / den := lt_two_zpow.le.trans least

/-- Powers of ten outgrow powers of two with 714 bits less as far as magnitudes reach. -/
theorem two_zpow_lt_ten_zpow {i : Int} (h : -307 ≤ i) : (2 : ℚ) ^ (i - 714) < 10 ^ i := by
  have whole : 5 ^ 307 < 2 ^ 714 := by decide +kernel
  have margin : (2 : ℚ) ^ (-714 : Int) < 5 ^ (-307 : Int) := by
    rw [zpow_neg, zpow_neg, zpow_ofNat, zpow_ofNat]
    refine inv_strictAnti₀ (by positivity) ?_
    exact_mod_cast whole
  calc (2 : ℚ) ^ (i - 714)
    _ = 2 ^ i * 2 ^ (-714 : Int) := by rw [← zpow_add₀ two_ne_zero]; rfl
    _ < 2 ^ i * 5 ^ (-307 : Int) := by gcongr
    _ ≤ 2 ^ i * 5 ^ i := by gcongr; norm_num
    _ = 10 ^ i := by rw [← mul_zpow]; norm_num

/-- The denominator is a power of two, and 767 digits reach as far behind the point. -/
theorem exists_ratio_eq_two_pow (positive : 0 < rank) (finite : rank < topRank) :
    ∃ j : Nat, (ratio rank).2 = 2 ^ j ∧ pointOf (ratio rank).1 (ratio rank).2 ≤ 767 - j := by
  have point := zpow_pointOf_le positive finite
  obtain ⟨-, most⟩ := magnitude_bounds positive finite
  obtain ⟨-, bits, least, -⟩ := scale_bounds positive finite
  have bits : ((scale rank).1 : ℚ) < 2 ^ (53 : Int) := by
    rw [zpow_ofNat]
    exact_mod_cast bits
  have before {i : Int} (h : magnitude rank < 10 ^ i) :
      pointOf (ratio rank).1 (ratio rank).2 - 1 < i :=
    (zpow_lt_zpow_iff_right₀ (a := (10 : ℚ)) (by norm_num)).1 (point.trans_lt h)
  refine ⟨(-(scale rank).2).toNat, ?_, ?_⟩
  · rw [ratio]
    dsimp only
    split
    · next whole =>
      dsimp only
      rw [Int.toNat_of_nonpos (Int.neg_nonpos_of_nonneg whole), Nat.pow_zero]
    · rfl
  · by_cases whole : 0 ≤ (scale rank).2
    · have := before (most.trans two_zpow_lt)
      omega
    · have small : magnitude rank < 10 ^ (767 + (scale rank).2) :=
        calc magnitude rank
          _ = (scale rank).1 * 2 ^ (scale rank).2 := magnitude_eq rank
          _ < 2 ^ (53 : Int) * 2 ^ (scale rank).2 := by gcongr
          _ = 2 ^ (767 + (scale rank).2 - 714) := by
            rw [← zpow_add₀ two_ne_zero]
            congr 1
            ring
          _ < 10 ^ (767 + (scale rank).2) := two_zpow_lt_ten_zpow (by omega)
      have := before small
      omega

/-- On the grid of 767 digits a number is its own lower neighbour. -/
theorem onGrid?_767_isSome (positive : 0 < rank) (finite : rank < topRank) :
    (onGrid? rank (ratio rank).1 (ratio rank).2 (pointOf (ratio rank).1 (ratio rank).2)
      767).isSome = true := by
  refine (onGrid?_cases _ _ _ _ _).2 (rankOfDecimal_of_magnitude positive finite ?_)
  obtain ⟨j, den, point⟩ := exists_ratio_eq_two_pow positive finite
  obtain ⟨s, hs⟩ := Int.eq_ofNat_of_zero_le
    (by omega : 0 ≤ (767 : Int) - pointOf (ratio rank).1 (ratio rank).2)
  have fine : 2 ^ j ∣ (ratio rank).1 * 10 ^ s :=
    Dvd.dvd.mul_left ((pow_dvd_pow_of_dvd (by decide) j).trans (pow_dvd_pow 10 (by omega))) _
  have grid : gridRatio (ratio rank).1 (ratio rank).2 s = ((ratio rank).1 * 10 ^ s, 2 ^ j) := by
    rw [gridRatio, if_pos (Int.natCast_nonneg s), Int.toNat_natCast, den, Nat.pow_eq]
  rw [Nat.cast_ofNat, hs, grid, Nat.cast_div fine (by positivity), zpow_neg, zpow_natCast,
    magnitude, den]
  push_cast
  field_simp

/-- The shortest decimal of a number reads back to it. -/
theorem rankOfDecimal_shortest (positive : 0 < rank) (finite : rank < topRank) :
    rankOfDecimal (shortest rank).digits (shortest rank).exponent = rank := by
  unfold shortest
  dsimp only
  split
  · next decimal found =>
    obtain ⟨k, -, found⟩ := List.exists_of_findSome?_eq_some found
    exact (onGrid?_cases _ _ _ _ _).1 decimal found
  · next missing =>
    have last := List.findSome?_eq_none_iff.1 missing 766 (List.mem_range.2 (by omega))
    have found := onGrid?_767_isSome positive finite
    rw [last] at found
    cases found

end Decimals

end Bindery.Binary64
