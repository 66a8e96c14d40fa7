import DirectiveSchema.Number.Decimal
import Mathlib.Algebra.Order.Field.Power
import Mathlib.Tactic.FieldSimp
import Mathlib.Tactic.Linarith
import Mathlib.Tactic.LinearCombination
import Mathlib.Tactic.Positivity
import Mathlib.Tactic.Ring

/-!
Rounding to double precision. A quotient is rounded to the nearest multiple of a unit, which is the
least one that a significand of 53 bits allows. From this follows which magnitudes are rounded to a
whole number: those that are no farther from it than half of the gap to the next value.
-/
namespace DirectiveSchema.Binary64

variable {num den R M e n : ℕ}

/-! ### The nearest whole number -/

/-- The nearest whole number is at most one half away, and less than that when it is odd. -/
theorem nearestEven_eq_iff (pos : 0 < den) : nearestEven num den = R ↔
    2 * (den * R) ≤ 2 * num + den ∧ 2 * num ≤ 2 * (den * R) + den ∧
      (R % 2 = 1 → 2 * (den * R) < 2 * num + den ∧ 2 * num < 2 * (den * R) + den) := by
  have split := Nat.div_add_mod num den
  have less := Nat.mod_lt num pos
  unfold nearestEven
  generalize num / den = a, num % den = r at split less
  rcases lt_trichotomy R a with below | rfl | above
  · obtain ⟨d, rfl⟩ := Nat.exists_eq_add_of_lt below
    have product : den * (R + d + 1) = den * R + den * d + den := by ring
    constructor
    · intro same
      dsimp only at same
      split_ifs at same <;> omega
    · rintro ⟨-, upper, -⟩
      omega
  · constructor
    · intro same
      dsimp only at same
      split_ifs at same <;> omega
    · rintro ⟨lower, upper, odd⟩
      dsimp only
      split_ifs <;> omega
  · obtain ⟨d, rfl⟩ := Nat.exists_eq_add_of_lt above
    have product : den * (a + d + 1) = den * a + den * d + den := by ring
    constructor
    · intro same
      dsimp only at same
      split_ifs at same with first second third
      · omega
      · obtain rfl : d = 0 := by omega
        simp only [Nat.mul_zero] at product
        omega
      · omega
      · obtain rfl : d = 0 := by omega
        simp only [Nat.mul_zero] at product
        omega
    · rintro ⟨lower, upper, odd⟩
      have none : d = 0 := by
        by_contra some
        have : den * 1 ≤ den * d := Nat.mul_le_mul_left den (Nat.pos_of_ne_zero some)
        omega
      subst none
      simp only [Nat.mul_zero] at product
      dsimp only
      split_ifs <;> omega

/-! ### The unit of rounding -/

theorem roundSteps_eq (num den : ℕ) : roundSteps num den =
    nearestEven num (den * 2 ^ spare (num / den)) * 2 ^ spare (num / den) := rfl

theorem spare_of_range (pos : 0 < den) (low : 2 ^ (52 + e) * den ≤ num)
    (high : num < 2 ^ (53 + e) * den) : spare (num / den) = e := by
  have least : 2 ^ (52 + e) ≤ num / den := (Nat.le_div_iff_mul_le pos).2 low
  have most : num / den < 2 ^ (52 + e + 1) := by
    rw [Nat.div_lt_iff_lt_mul pos]
    exact lt_of_lt_of_eq high (by ring)
  have some : num / den ≠ 0 := Nat.ne_of_gt (lt_of_lt_of_le (Nat.two_pow_pos _) least)
  rw [spare, (Nat.log2_eq_iff some).2 ⟨least, most⟩]
  omega

theorem lt_of_spare (pos : 0 < den) : num < 2 ^ (53 + spare (num / den)) * den := by
  rw [← Nat.div_lt_iff_lt_mul pos]
  rcases Nat.eq_zero_or_pos (num / den) with none | some
  · rw [none]
    exact Nat.two_pow_pos _
  · refine lt_of_lt_of_le (Nat.log2_lt (by omega) |>.1 (Nat.lt_succ_self _)) ?_
    apply Nat.pow_le_pow_right (by omega)
    unfold spare
    omega

theorem le_of_spare (pos : 0 < den) (spares : 0 < spare (num / den)) :
    2 ^ (52 + spare (num / den)) * den ≤ num := by
  rw [← Nat.le_div_iff_mul_le pos]
  have some : num / den ≠ 0 := by
    intro none
    rw [none] at spares
    exact absurd spares (by decide)
  have exponent : 52 + spare (num / den) = (num / den).log2 := by
    unfold spare at spares ⊢
    omega
  rw [exponent]
  exact Nat.log2_self_le some

/-! ### Magnitudes that are rounded to a value -/

theorem roundSteps_eq_zero_iff (pos : 0 < den) : roundSteps num den = 0 ↔ 2 * num ≤ den := by
  constructor
  · intro zero
    have product := roundSteps_eq num den
    rw [zero, eq_comm, Nat.mul_eq_zero] at product
    have nearest := product.resolve_right (Nat.ne_of_gt (Nat.two_pow_pos _))
    rw [nearestEven_eq_iff (Nat.mul_pos pos (Nat.two_pow_pos _))] at nearest
    rcases Nat.eq_zero_or_pos (spare (num / den)) with none | spares
    · simpa [none] using nearest.2.1
    · have large := le_of_spare pos spares
      have split : 2 ^ (52 + spare (num / den)) * den =
          2 ^ 52 * (den * 2 ^ spare (num / den)) := by ring
      have positive := Nat.mul_pos pos (Nat.two_pow_pos (spare (num / den)))
      omega
  · intro small
    have none : spare (num / den) = 0 := by
      rw [Nat.div_eq_of_lt (by omega)]
      rfl
    rw [roundSteps_eq, none, Nat.pow_zero, Nat.mul_one, Nat.mul_one, nearestEven_eq_iff pos]
    omega

/-- A multiple of a power of two with a significand of 53 bits is written in one way only, but for
the next power of two. -/
theorem eq_of_mul_two_pow_eq {f : ℕ} (same : R * 2 ^ f = M * 2 ^ e) (low : 2 ^ 52 ≤ M)
    (high : M < 2 ^ 53) (short : R ≤ 2 ^ 53) (normal : 0 < f → 2 ^ 52 ≤ R) :
    R = M ∧ f = e ∨ R = 2 ^ 53 ∧ M = 2 ^ 52 ∧ e = f + 1 := by
  rcases lt_trichotomy f e with less | rfl | more
  · obtain ⟨d, rfl⟩ := Nat.exists_eq_add_of_lt less
    have shifted : R = M * 2 ^ d * 2 := by
      apply Nat.eq_of_mul_eq_mul_right (Nat.two_pow_pos f)
      rw [same]
      ring
    cases d with
    | zero => omega
    | succ d =>
      have : M * 2 ^ d * 2 * 2 = R := by
        rw [shifted]
        ring
      have : M * 1 ≤ M * 2 ^ d := Nat.mul_le_mul_left M (Nat.two_pow_pos d)
      omega
  · exact .inl ⟨Nat.eq_of_mul_eq_mul_right (Nat.two_pow_pos f) same, rfl⟩
  · obtain ⟨d, rfl⟩ := Nat.exists_eq_add_of_lt more
    have shifted : R * 2 ^ d * 2 = M := by
      apply Nat.eq_of_mul_eq_mul_right (Nat.two_pow_pos e)
      rw [← same]
      ring
    have : R * 1 ≤ R * 2 ^ d := Nat.mul_le_mul_left R (Nat.two_pow_pos d)
    have := normal (by omega)
    omega

/-- A value with an even significand: what is at most half of a gap away is rounded to it. The gap
below a power of two is half of that above. -/
theorem roundSteps_eq_iff (pos : 0 < den) (low : 2 ^ 52 ≤ M) (high : M < 2 ^ 53)
    (even : M % 2 = 0) (large : 0 < e) : roundSteps num den = M * 2 ^ e ↔
      2 * num ≤ 2 * (M * (2 ^ e * den)) + 2 ^ e * den ∧
        if M = 2 ^ 52 then 4 * (M * (2 ^ e * den)) ≤ 4 * num + 2 ^ e * den
        else 2 * (M * (2 ^ e * den)) ≤ 2 * num + 2 ^ e * den := by
  have positive := Nat.mul_pos (Nat.two_pow_pos e) pos
  constructor
  · intro same
    rw [roundSteps_eq] at same
    have below : num < 2 ^ (53 + spare (num / den)) * den := lt_of_spare pos
    have above (spares : 0 < spare (num / den)) : 2 ^ (52 + spare (num / den)) * den ≤ num :=
      le_of_spare pos spares
    generalize spare (num / den) = f at same below above
    generalize rounded : nearestEven num (den * 2 ^ f) = R at same
    rw [nearestEven_eq_iff (Nat.mul_pos pos (Nat.two_pow_pos f))] at rounded
    have unit := Nat.mul_pos pos (Nat.two_pow_pos f)
    have top : 2 ^ (53 + f) * den = 2 ^ 53 * (den * 2 ^ f) := by ring
    have bottom : 2 ^ (52 + f) * den = 2 ^ 52 * (den * 2 ^ f) := by ring
    have short : R ≤ 2 ^ 53 := by
      by_contra long
      have : den * 2 ^ f * (2 ^ 53 + 1) ≤ den * 2 ^ f * R := Nat.mul_le_mul_left _ (by omega)
      omega
    have normal (spares : 0 < f) : 2 ^ 52 ≤ R := by
      have := above spares
      by_contra less
      have : den * 2 ^ f * (R + 1) ≤ den * 2 ^ f * 2 ^ 52 := Nat.mul_le_mul_left _ (by omega)
      have : den * 2 ^ f * (R + 1) = den * 2 ^ f * R + den * 2 ^ f := by ring
      omega
    rcases eq_of_mul_two_pow_eq same low high short normal with ⟨rfl, rfl⟩ | ⟨rfl, rfl, rfl⟩
    · have := above large
      have product : R * (2 ^ f * den) = den * 2 ^ f * R := by ring
      have unit' : 2 ^ f * den = den * 2 ^ f := by ring
      refine ⟨by omega, ?_⟩
      split_ifs with power
      · subst power
        omega
      · omega
    · have unit' : 2 ^ (f + 1) * den = 2 * (den * 2 ^ f) := by ring
      refine ⟨by omega, ?_⟩
      rw [if_pos rfl]
      omega
  · rintro ⟨upper, lower⟩
    have unit : den * 2 ^ e = 2 ^ e * den := Nat.mul_comm _ _
    have product : den * 2 ^ e * M = M * (2 ^ e * den) := by ring
    -- In the range of the value its own unit is that of rounding.
    have settled (inside : 2 ^ 52 * (2 ^ e * den) ≤ num)
        (lower : 2 * (M * (2 ^ e * den)) ≤ 2 * num + 2 ^ e * den) :
        roundSteps num den = M * 2 ^ e := by
      have most : (M + 1) * (2 ^ e * den) ≤ 2 ^ 53 * (2 ^ e * den) :=
        Nat.mul_le_mul_right _ high
      have next : (M + 1) * (2 ^ e * den) = M * (2 ^ e * den) + 2 ^ e * den := by ring
      have top : 2 ^ (53 + e) * den = 2 ^ 53 * (2 ^ e * den) := by ring
      have bottom : 2 ^ (52 + e) * den = 2 ^ 52 * (2 ^ e * den) := by ring
      rw [roundSteps_eq, spare_of_range (e := e) pos (by omega) (by omega)]
      congr 1
      rw [nearestEven_eq_iff (Nat.mul_pos pos (Nat.two_pow_pos e))]
      omega
    have least : 2 ^ 52 * (2 ^ e * den) ≤ M * (2 ^ e * den) := Nat.mul_le_mul_right _ low
    split_ifs at lower with power
    · subst power
      rcases Nat.lt_or_ge num (2 ^ 52 * (2 ^ e * den)) with short | long
      · -- Below a power of two the unit of rounding is half as large.
        obtain ⟨f, rfl⟩ : ∃ f, e = f + 1 := ⟨e - 1, by omega⟩
        have half : 2 ^ (f + 1) * den = 2 * (2 ^ f * den) := by ring
        have top : 2 ^ (53 + f) * den = 2 ^ 53 * (2 ^ f * den) := by ring
        have bottom : 2 ^ (52 + f) * den = 2 ^ 52 * (2 ^ f * den) := by ring
        have unit' : den * 2 ^ f = 2 ^ f * den := Nat.mul_comm _ _
        rw [roundSteps_eq, spare_of_range (e := f) pos (by omega) (by omega)]
        have doubled : nearestEven num (den * 2 ^ f) = 2 ^ 53 := by
          rw [nearestEven_eq_iff (Nat.mul_pos pos (Nat.two_pow_pos f))]
          omega
        rw [doubled]
        ring
      · exact settled long (by omega)
    · apply settled _ lower
      have next : (2 ^ 52 + 1) * (2 ^ e * den) ≤ M * (2 ^ e * den) :=
        Nat.mul_le_mul_right _ (by omega)
      omega

/-! ### Magnitudes that are rounded to a whole number -/

/-- Half of the gap between a whole number and the next value. -/
def halfAbove (n : ℕ) : ℚ := if n = 0 then 1 / (2 * oneSteps) else 2 ^ ((n.log2 : ℤ) - 53)

/-- Half of the gap between a whole number and the value before it. -/
def halfBelow (n : ℕ) : ℚ := 2 ^ ((n.log2 : ℤ) - if n = 2 ^ n.log2 then 54 else 53)

/-- The magnitudes that are rounded to a whole number: halfway points are, since its significand is
even. -/
def RoundsTo (n : ℕ) (x : ℚ) : Prop := n - halfBelow n ≤ x ∧ x ≤ n + halfAbove n

theorem oneSteps_eq (h : e = 1074) : oneSteps = 2 ^ e := by
  rw [h, oneSteps, Nat.pow_eq]

theorem two_zpow_mul_oneSteps {i : ℤ} (h : i + 1074 = e) : (2 : ℚ) ^ i * oneSteps = 2 ^ e := by
  obtain ⟨j, steps⟩ : ∃ j, j = 1074 := ⟨_, rfl⟩
  rw [oneSteps_eq steps, Nat.cast_pow, Nat.cast_ofNat, ← zpow_natCast, ← zpow_add₀ two_ne_zero,
    show i + j = e by omega, zpow_natCast]

theorem roundSteps_whole_zero_iff (pos : 0 < den) :
    roundSteps num den = 0 ↔ RoundsTo 0 (num / (den * oneSteps)) := by
  rw [roundSteps_eq_zero_iff pos, RoundsTo, halfAbove, if_pos rfl]
  have steps := oneSteps_pos
  generalize oneSteps = w at steps
  have positive : (0 : ℚ) < den * w := by exact_mod_cast Nat.mul_pos pos steps
  have half : 1 / (2 * (w : ℚ)) * (den * w) * 2 = den := by
    have : (w : ℚ) ≠ 0 := Nat.cast_ne_zero.2 steps.ne'
    field_simp
  rw [div_le_iff₀ positive]
  constructor
  · intro small
    have small : 2 * (num : ℚ) ≤ den := by exact_mod_cast small
    have : (0 : ℚ) < halfBelow 0 := zpow_pos two_pos _
    have : (0 : ℚ) ≤ num / (den * w) := by positivity
    push_cast
    constructor <;> linarith
  · rintro ⟨-, small⟩
    push_cast at small
    have : 2 * (num : ℚ) ≤ den := by linarith
    exact_mod_cast this

theorem roundSteps_whole_iff (pos : 0 < den) (small : n < 2 ^ 32) :
    roundSteps num den = n * oneSteps ↔ RoundsTo n (num / (den * oneSteps)) := by
  rcases Nat.eq_zero_or_pos n with rfl | some
  · rw [Nat.zero_mul]
    exact roundSteps_whole_zero_iff pos
  have least := Nat.log2_self_le some.ne'
  have most := Nat.lt_log2_self (n := n)
  have short : n.log2 < 32 := (Nat.log2_lt some.ne').2 small
  generalize log : n.log2 = k at least most short
  obtain ⟨j, exponent⟩ : ∃ j, j = 1022 + k := ⟨_, rfl⟩
  -- The significand and the unit of the whole number.
  have low : 2 ^ 52 ≤ n * 2 ^ (52 - k) := by
    have := Nat.mul_le_mul_right (2 ^ (52 - k)) least
    rwa [← Nat.pow_add, show k + (52 - k) = 52 by omega] at this
  have high : n * 2 ^ (52 - k) < 2 ^ 53 := by
    have := Nat.mul_lt_mul_of_pos_right most (Nat.two_pow_pos (52 - k))
    rwa [← Nat.pow_add, show k + 1 + (52 - k) = 53 by omega] at this
  have even : n * 2 ^ (52 - k) % 2 = 0 := by
    rw [show 52 - k = 51 - k + 1 by omega, Nat.pow_succ, ← Nat.mul_assoc, Nat.mul_mod_left]
  have power : n * 2 ^ (52 - k) = 2 ^ 52 ↔ n = 2 ^ k := by
    have split : 2 ^ 52 = 2 ^ k * 2 ^ (52 - k) := by
      rw [← Nat.pow_add]
      congr 1
      omega
    rw [split]
    exact Nat.mul_left_inj (Nat.two_pow_pos _).ne'
  have whole : n * oneSteps = n * 2 ^ (52 - k) * 2 ^ j := by
    have steps : oneSteps = 2 ^ (52 - k + j) := oneSteps_eq (by omega)
    rw [steps, Nat.mul_assoc, ← Nat.pow_add]
  have unit : (2 : ℚ) ^ ((k : ℤ) - 53) * oneSteps * 2 = 2 ^ j := by
    have half : (2 : ℚ) ^ ((k : ℤ) - 53) * oneSteps = 2 ^ (1021 + k) :=
      two_zpow_mul_oneSteps (by omega)
    rw [half, ← pow_succ, show 1021 + k + 1 = j by omega]
  have halved : (2 : ℚ) ^ ((k : ℤ) - 53) = 2 ^ ((k : ℤ) - 54) * 2 := by
    rw [← zpow_add_one₀ two_ne_zero, show (k : ℤ) - 54 + 1 = k - 53 by omega]
  rw [whole, roundSteps_eq_iff pos low high even (by omega), RoundsTo, halfAbove,
    if_neg some.ne', halfBelow, log]
  have steps := oneSteps_pos
  have value : (n : ℚ) * oneSteps = n * 2 ^ (52 - k) * 2 ^ j := by exact_mod_cast whole
  generalize oneSteps = w at unit value steps
  have positive : (0 : ℚ) < den * w := by exact_mod_cast Nat.mul_pos pos steps
  rw [div_le_iff₀ positive, le_div_iff₀ positive, and_comm]
  apply and_congr
  · simp only [power]
    split_ifs
    · rw [← @Nat.cast_le ℚ]
      push_cast
      rw [halved] at unit
      constructor <;> intro h
      · linear_combination h / 4 + den * value - den * unit / 4
      · linear_combination 4 * h - 4 * den * value + den * unit
    · rw [← @Nat.cast_le ℚ]
      push_cast
      constructor <;> intro h
      · linear_combination h / 2 + den * value - den * unit / 2
      · linear_combination 2 * h - 2 * den * value + den * unit
  · rw [← @Nat.cast_le ℚ]
    push_cast
    constructor <;> intro h
    · linear_combination h / 2 - den * value - den * unit / 2
    · linear_combination 2 * h + 2 * den * value + den * unit

/-! ### Decimal fractions -/

theorem halfAbove_nonneg (n : ℕ) : 0 ≤ halfAbove n := by
  unfold halfAbove
  split_ifs
  · exact div_nonneg zero_le_one (mul_nonneg zero_le_two (Nat.cast_nonneg _))
  · exact (zpow_pos two_pos _).le

theorem halfBelow_nonneg (n : ℕ) : 0 ≤ halfBelow n := (zpow_pos two_pos _).le

theorem halfAbove_le (small : n < 2 ^ 32) : halfAbove n ≤ 1 / 2 := by
  unfold halfAbove
  split_ifs with none
  · have : (1 : ℚ) ≤ oneSteps := by exact_mod_cast oneSteps_pos
    generalize (oneSteps : ℚ) = w at this
    rw [div_le_div_iff₀ (by linarith) two_pos]
    linarith
  · have short : n.log2 < 32 := (Nat.log2_lt none).2 small
    have one : (1 : ℚ) ≤ 2 := one_le_two
    simpa using zpow_le_zpow_right₀ one (show (n.log2 : ℤ) - 53 ≤ -1 by omega)

theorem halfBelow_le (small : n < 2 ^ 32) : halfBelow n ≤ 1 / 2 := by
  have short : (n.log2 : ℤ) - (if n = 2 ^ n.log2 then 54 else 53) ≤ -1 := by
    rcases Nat.eq_zero_or_pos n with rfl | some
    · decide
    · have : n.log2 < 32 := (Nat.log2_lt some.ne').2 small
      split_ifs <;> omega
  have one : (1 : ℚ) ≤ 2 := one_le_two
  simpa [halfBelow] using zpow_le_zpow_right₀ one short

theorem RoundsTo.near {x : ℚ} (small : n < 2 ^ 32) (h : RoundsTo n x) :
    (n : ℚ) - 1 / 2 ≤ x ∧ x ≤ n + 1 / 2 := by
  have := halfAbove_le small
  have := halfBelow_le small
  obtain ⟨lower, upper⟩ := h
  constructor <;> linarith

/-- The numbers that are rounded to a whole number: those of its sign, or of both signs if it is
zero, whose magnitude is rounded to its magnitude. -/
def Near (i : ℤ) (q : ℚ) : Prop := 0 ≤ i * q ∧ RoundsTo i.natAbs |q|

/-- The whole number that a value is, if it is one. -/
def whole? (x : Binary64) : Option ℤ := if x.isInteger then x.truncate? else none

theorem signedSteps_iff {negative : Bool} {steps : ℕ} {i : ℤ} : signedSteps negative steps = i ↔
    steps = i.natAbs ∧ (i = 0 ∨ negative = decide (i < 0)) := by
  cases negative <;> simp [signedSteps] <;> omega

theorem whole?_finite_iff {negative : Bool} {steps : ℕ} {i : ℤ} :
    whole? (.finite negative steps) = some i ↔
      steps = i.natAbs * oneSteps ∧ (i = 0 ∨ negative = decide (i < 0)) := by
  constructor
  · intro h
    rw [whole?] at h
    split_ifs at h with whole
    have exact := (isInteger_iff_truncate negative steps).1 whole
    obtain ⟨same, sign⟩ := signedSteps_iff.1 (Option.some.inj h)
    exact ⟨same ▸ exact, sign⟩
  · rintro ⟨same, sign⟩
    have whole : (finite negative steps).isInteger = true := by
      rw [isInteger, same, Nat.mul_mod_left]
      rfl
    rw [whole?, if_pos whole, truncate?, same, Nat.mul_div_cancel _ oneSteps_pos]
    exact congrArg some (signedSteps_iff.2 ⟨rfl, sign⟩)

theorem whole_lt_overflowSteps (small : n < 2 ^ 53) : n * oneSteps < overflowSteps := by
  obtain ⟨e, least⟩ : ∃ e, e = 1074 := ⟨_, rfl⟩
  have limit : overflowSteps = 2 ^ (1024 + e) := by rw [least, overflowSteps, Nat.pow_eq]
  rw [limit, oneSteps_eq least, Nat.pow_add]
  apply Nat.mul_lt_mul_of_pos_right _ (Nat.two_pow_pos e)
  exact small.trans (Nat.pow_lt_pow_right (by omega) (by omega))

theorem whole?_ofSteps_iff {negative : Bool} {steps : ℕ} {i : ℤ} (small : i.natAbs < 2 ^ 32) :
    whole? (ofSteps negative steps) = some i ↔
      steps = i.natAbs * oneSteps ∧ (i = 0 ∨ negative = decide (i < 0)) := by
  unfold ofSteps
  split_ifs with below
  · exact whole?_finite_iff
  · constructor
    · intro h
      cases h
    · rintro ⟨same, -⟩
      exact absurd (same ▸ whole_lt_overflowSteps (small.trans (by decide))) below

end DirectiveSchema.Binary64

namespace DirectiveSchema.Decimal

open Binary64

/-- What a decimal fraction denotes, without its sign. -/
def magnitude (d : Decimal) : ℚ := d.digits * 10 ^ d.exponent

/-- What a decimal fraction denotes. -/
def value (d : Decimal) : ℚ := if d.negative then -d.magnitude else d.magnitude

variable {d : Decimal} {n : ℕ}

theorem magnitude_nonneg (d : Decimal) : 0 ≤ d.magnitude := by
  unfold magnitude
  positivity

theorem abs_value (d : Decimal) : |d.value| = d.magnitude := by
  unfold value
  split_ifs
  · rw [abs_neg, abs_of_nonneg d.magnitude_nonneg]
  · exact abs_of_nonneg d.magnitude_nonneg

theorem nearestSteps_whole_iff (d : Decimal) (small : n < 2 ^ 32) :
    nearestSteps d.digits d.exponent = n * oneSteps ↔ RoundsTo n d.magnitude := by
  have steps : (oneSteps : ℚ) ≠ 0 := Nat.cast_ne_zero.2 oneSteps_pos.ne'
  unfold nearestSteps magnitude
  split_ifs with whole
  · obtain ⟨k, same⟩ := Int.eq_ofNat_of_zero_le whole
    rw [roundSteps_whole_iff Nat.one_pos small, same, Int.toNat_natCast, Nat.pow_eq]
    push_cast
    rw [one_mul, mul_div_cancel_right₀ _ steps, zpow_natCast]
  · obtain ⟨k, same⟩ := Int.eq_ofNat_of_zero_le (show 0 ≤ -d.exponent by omega)
    have exponent : d.exponent = -(k : ℤ) := by omega
    rw [same, exponent, Int.toNat_natCast, Nat.pow_eq,
      roundSteps_whole_iff (Nat.pow_pos (by omega)) small]
    push_cast
    rw [mul_div_mul_right _ _ steps, zpow_neg, zpow_natCast, div_eq_mul_inv]

theorem not_roundsTo_of_isHuge (huge : d.isHuge = true) (small : n < 2 ^ 32) :
    ¬RoundsTo n d.magnitude := by
  intro rounds
  obtain ⟨some, far⟩ : d.digits ≠ 0 ∧ 400 < d.exponent := by simpa [isHuge] using huge
  have ten : (10 : ℚ) ^ (10 : ℤ) ≤ 10 ^ d.exponent :=
    zpow_le_zpow_right₀ (by norm_num) (by omega)
  have digits : (1 : ℚ) ≤ d.digits := by exact_mod_cast Nat.pos_of_ne_zero some
  have large : (10 : ℚ) ^ (10 : ℤ) ≤ d.magnitude :=
    le_trans ten (le_mul_of_one_le_left (by positivity) digits)
  have bound : (n : ℚ) ≤ 4294967296 := by exact_mod_cast small.le
  have := (rounds.near small).2
  norm_num at large
  linarith

theorem magnitude_le_of_isTiny (tiny : d.isTiny = true) :
    d.magnitude ≤ 1 / (2 * oneSteps) := by
  have steps : (0 : ℚ) < 2 * oneSteps := mul_pos two_pos (Nat.cast_pos.2 oneSteps_pos)
  rcases Nat.eq_zero_or_pos d.digits with none | some
  · rw [magnitude, none, Nat.cast_zero, zero_mul]
    exact div_nonneg zero_le_one steps.le
  · have short : (d.digits.log2 : ℤ) + 1101 < 3 * -d.exponent := by
      simpa [isTiny, some.ne'] using tiny
    obtain ⟨k, same⟩ := Int.eq_ofNat_of_zero_le (show 0 ≤ -d.exponent by omega)
    have exponent : d.exponent = -(k : ℤ) := by omega
    have small : d.digits * (2 * oneSteps) ≤ 10 ^ k := by
      obtain ⟨e, least⟩ : ∃ e, e = 1074 := ⟨_, rfl⟩
      calc d.digits * (2 * oneSteps) ≤ 2 ^ (d.digits.log2 + 1) * (2 * 2 ^ e) := by
            rw [oneSteps_eq least]
            exact Nat.mul_le_mul_right _ Nat.lt_log2_self.le
        _ = 2 ^ (d.digits.log2 + 1 + (1 + e)) := by ring
        _ ≤ 2 ^ (3 * k) := Nat.pow_le_pow_right (by omega) (by omega)
        _ = 8 ^ k := by rw [Nat.pow_mul]
        _ ≤ 10 ^ k := Nat.pow_le_pow_left (by omega) k
    have small : (d.digits : ℚ) * (2 * oneSteps) ≤ 10 ^ k := by exact_mod_cast small
    have ten : (0 : ℚ) < 10 ^ k := by positivity
    rw [magnitude, exponent, zpow_neg, zpow_natCast, ← div_eq_mul_inv,
      div_le_div_iff₀ ten steps, one_mul]
    exact small

theorem near_value_iff {i : ℤ} (small : i.natAbs < 2 ^ 32) : Near i d.value ↔
    RoundsTo i.natAbs d.magnitude ∧ (i = 0 ∨ d.negative = decide (i < 0)) := by
  rw [Near, abs_value, and_comm]
  apply and_congr_right
  intro rounds
  rcases eq_or_ne i 0 with rfl | some
  · simp
  · have positive : 0 < d.magnitude := by
      have one : (1 : ℚ) ≤ i.natAbs := by exact_mod_cast Int.natAbs_pos.2 some
      have := (rounds.near small).1
      linarith
    rw [value]
    cases d.negative with
    | false => simp [some, mul_nonneg_iff_of_pos_right positive]
    | true =>
      have flip : (i : ℚ) * d.magnitude ≤ 0 ↔ i < 0 := by
        rw [mul_nonpos_iff]
        simp [positive.not_ge, positive.le, lt_iff_le_and_ne, some]
      simp [some, flip]

theorem roundsTo_zero_of_isTiny (tiny : d.isTiny = true) : RoundsTo 0 d.magnitude := by
  have below : (0 : ℚ) < halfBelow 0 := zpow_pos two_pos _
  have := d.magnitude_nonneg
  have := magnitude_le_of_isTiny tiny
  rw [RoundsTo, halfAbove, if_pos rfl, Nat.cast_zero, zero_add]
  constructor <;> linarith

theorem magnitude_lt_half_of_isTiny (tiny : d.isTiny = true) : d.magnitude < 1 / 2 := by
  apply lt_of_le_of_lt (magnitude_le_of_isTiny tiny)
  have many : (1 : ℚ) < oneSteps := Nat.one_lt_cast.2 (Nat.one_lt_two_pow (by omega))
  apply one_div_lt_one_div_of_lt two_pos
  exact lt_mul_of_one_lt_right two_pos many

/-- Exactly the numbers near a whole number are read as that number. -/
theorem whole?_toBinary64_iff {i : ℤ} (small : i.natAbs < 2 ^ 32) :
    whole? d.toBinary64 = some i ↔ Near i d.value := by
  rw [near_value_iff small, toBinary64]
  split_ifs with huge tiny
  · constructor
    · intro h
      cases h
    · rintro ⟨rounds, -⟩
      exact absurd rounds (not_roundsTo_of_isHuge huge small)
  · rw [whole?_finite_iff]
    apply and_congr_left
    intro _
    have zero : (0 = i.natAbs * oneSteps) ↔ i.natAbs = 0 := by
      rw [eq_comm, Nat.mul_eq_zero, or_iff_left oneSteps_pos.ne']
    rw [zero]
    constructor
    · intro none
      rw [none]
      exact roundsTo_zero_of_isTiny tiny
    · intro rounds
      have := (rounds.near small).1
      have := magnitude_lt_half_of_isTiny tiny
      have none : (i.natAbs : ℚ) < 1 := by linarith
      exact Nat.lt_one_iff.1 (by exact_mod_cast none)
  · rw [whole?_ofSteps_iff small, nearestSteps_whole_iff d small]

end DirectiveSchema.Decimal
