import Mathlib.Algebra.Order.Field.Power
import Mathlib.Algebra.Order.Field.Rat
import Mathlib.Tactic.FieldSimp
import Mathlib.Tactic.GCongr
import Mathlib.Tactic.Linarith
import Mathlib.Tactic.NormNum
import Mathlib.Tactic.Positivity
import Mathlib.Tactic.Ring
import OnePass.Double.Reading

/-!
# Rounding

A numeral is read as the value nearest to it. The values are the points of a grid that gets coarser
from one power of two to the next: between two of them they are the whole multiples of one step. So
it is enough to find the steps in which a number has 53 binary digits, and to round it to a whole
number of them. Infinity takes part as the power of two behind the last finite value.
-/

namespace OnePass.Double

/-- The number that a non-negative value stands for. -/
def value (x : Double) : ℚ := x.magnitude.significand * 2 ^ x.magnitude.exponent

/-- The value is the nearest one to `q`, and if another one is just as near, the even one. -/
structure IsNearest (x : Double) (q : ℚ) : Prop where
  positive : x.negative = false
  isNumber : x.rank.val ≤ infinityRank
  nearest : ∀ y : Double, y.rank.val ≤ infinityRank → |x.value - q| < |y.value - q| ∨
    |x.value - q| = |y.value - q| ∧ (y.rank = x.rank ∨ x.rank.val % 2 = 0)

/-! ## Rounding quotients -/

/-- A whole number is the nearest one to `t`, and if another one is just as near, the even one. -/
def NearestWhole (s : Nat) (t : ℚ) : Prop :=
  ∀ k : Nat, |(s : ℚ) - t| < |(k : ℚ) - t| ∨ |(s : ℚ) - t| = |(k : ℚ) - t| ∧ (k = s ∨ s % 2 = 0)

namespace NearestWhole

variable {s b : Nat} {t : ℚ}

theorem le (h : NearestWhole s t) (upper : t < b) : s ≤ b := by
  by_contra more
  have cast : (b : ℚ) < s := by exact_mod_cast not_le.1 more
  have near : |(s : ℚ) - t| ≤ |(b : ℚ) - t| := (h b).elim le_of_lt fun same => same.1.le
  rw [abs_of_pos (by linarith), abs_of_pos (by linarith)] at near
  linarith

theorem ge (h : NearestWhole s t) (lower : b ≤ t) : b ≤ s := by
  by_contra fewer
  have cast : (s : ℚ) < b := by exact_mod_cast not_le.1 fewer
  have near : |(s : ℚ) - t| ≤ |(b : ℚ) - t| := (h b).elim le_of_lt fun same => same.1.le
  rw [abs_of_neg (by linarith), abs_of_nonpos (by linarith)] at near
  linarith

end NearestWhole

/-- How far a number between `q` and `q + 1` is from whole numbers. -/
theorem abs_whole_sub {q : Nat} {t : ℚ} (lower : (q : ℚ) ≤ t) (upper : t < q + 1) (k : Nat) :
    k = q ∧ |(k : ℚ) - t| = t - q ∨ k = q + 1 ∧ |(k : ℚ) - t| = q + 1 - t ∨
      1 ≤ |(k : ℚ) - t| := by
  rcases Nat.lt_trichotomy k q with less | rfl | more
  · have cast : (k : ℚ) + 1 ≤ q := by exact_mod_cast less
    refine .inr (.inr ?_)
    rw [abs_of_nonpos (by linarith)]
    linarith
  · refine .inl ⟨rfl, ?_⟩
    rw [abs_of_nonpos (by linarith)]
    ring
  · rcases Nat.eq_or_lt_of_le more with rfl | more
    · refine .inr (.inl ⟨rfl, ?_⟩)
      push_cast
      rw [abs_of_nonneg (by linarith)]
    · have cast : (q : ℚ) + 1 + 1 ≤ k := by exact_mod_cast more
      refine .inr (.inr ?_)
      rw [abs_of_nonneg (by linarith)]
      linarith

/-- Rounding down, to the even neighbour, and up. -/
theorem nearestWhole_of_floor {q s : Nat} {t : ℚ} (lower : (q : ℚ) ≤ t) (upper : t < q + 1)
    (h : t - q < 1 / 2 ∧ s = q ∨ t - q = 1 / 2 ∧ s = q + q % 2 ∨ 1 / 2 < t - q ∧ s = q + 1) :
    NearestWhole s t := by
  have down : |(q : ℚ) - t| = t - q := by
    rw [abs_of_nonpos (by linarith)]
    ring
  have up : |((q + 1 : Nat) : ℚ) - t| = q + 1 - t := by
    push_cast
    rw [abs_of_nonneg (by linarith)]
  intro k
  have far := abs_whole_sub lower upper k
  rcases h with ⟨half, rfl⟩ | ⟨half, rfl⟩ | ⟨half, rfl⟩
  · rw [down]
    rcases far with ⟨rfl, far⟩ | ⟨rfl, far⟩ | far
    · exact .inr ⟨far.symm, .inl rfl⟩
    · exact .inl (by linarith)
    · exact .inl (by linarith)
  · have near : |((q + q % 2 : Nat) : ℚ) - t| = 1 / 2 := by
      rcases Nat.mod_two_eq_zero_or_one q with even | odd
      · rw [even, Nat.add_zero, down, half]
      · rw [odd, up]
        linarith
    have even : (q + q % 2) % 2 = 0 := by omega
    rw [near]
    rcases far with ⟨rfl, far⟩ | ⟨rfl, far⟩ | far
    · exact .inr ⟨by linarith, .inr even⟩
    · exact .inr ⟨by linarith, .inr even⟩
    · exact .inl (by linarith)
  · rw [up]
    rcases far with ⟨rfl, far⟩ | ⟨rfl, far⟩ | far
    · exact .inl (by linarith)
    · exact .inr ⟨far.symm, .inl rfl⟩
    · exact .inl (by linarith)

theorem nearestWhole_roundDiv (n : Nat) {d : Nat} (pos : 0 < d) :
    NearestWhole (roundDiv n d) (n / d) := by
  have positive : (0 : ℚ) < d := by exact_mod_cast pos
  have split : (n : ℚ) = d * (n / d : Nat) + (n % d : Nat) := by
    exact_mod_cast (Nat.div_add_mod n d).symm
  have less : ((n % d : Nat) : ℚ) < d := by exact_mod_cast Nat.mod_lt n pos
  have quotient : (n : ℚ) / d - (n / d : Nat) = ((n % d : Nat) : ℚ) / d := by
    field_simp
    linarith
  have nonneg : 0 ≤ ((n % d : Nat) : ℚ) / d := by positivity
  have below : ((n % d : Nat) : ℚ) / d < 1 := (div_lt_one positive).2 less
  refine nearestWhole_of_floor (q := n / d) (by linarith) (by linarith) ?_
  rw [quotient]
  unfold roundDiv
  dsimp only
  split
  · rename_i half
    have cast : 2 * ((n % d : Nat) : ℚ) < d := by exact_mod_cast half
    refine .inl ⟨?_, rfl⟩
    rw [div_lt_div_iff₀ positive (by norm_num)]
    linarith
  · split
    · rename_i half
      have cast : 2 * ((n % d : Nat) : ℚ) = d := by exact_mod_cast half
      refine .inr (.inl ⟨?_, rfl⟩)
      rw [div_eq_div_iff positive.ne' (by norm_num)]
      linarith
    · rename_i notLess notEqual
      have cast : (d : ℚ) < 2 * ((n % d : Nat) : ℚ) := by
        exact_mod_cast lt_of_le_of_ne (not_lt.1 notLess) (Ne.symm notEqual)
      refine .inr (.inr ⟨?_, rfl⟩)
      rw [div_lt_div_iff₀ (by norm_num) positive]
      linarith

/-! ## The grid of values -/

/-- The `k`-th length of a step between neighbouring values. -/
def step (k : Nat) : ℚ := 2 ^ ((k : ℤ) - 1074)

theorem step_pos (k : Nat) : 0 < step k := by
  unfold step
  positivity

theorem step_succ (k : Nat) : step (k + 1) = 2 * step k := by
  unfold step
  rw [show ((k + 1 : Nat) : ℤ) - 1074 = ((k : ℤ) - 1074) + 1 by push_cast; ring,
    zpow_add_one₀ (by norm_num), mul_comm]

theorem step_le_step {j k : Nat} (h : j ≤ k) : step j ≤ step k := by
  unfold step
  exact zpow_le_zpow_right₀ (by norm_num) (by omega)

/-- Where the steps have the `k`-th length, a rank counts them on from the values before. -/
theorem value_eq_of_rank {x : Double} {k m : Nat} (rank : x.rank.val = k * fractions + m)
    (normal : k = 0 ∨ fractions ≤ m) (most : m ≤ 2 * fractions) :
    x.value = m * step k := by
  have size : fractions = 4503599627370496 := rfl
  have parts : x.value = if x.rank.val / fractions = 0 then
      ((x.rank.val % fractions : Nat) : ℚ) * 2 ^ (-1074 : ℤ)
    else ((fractions + x.rank.val % fractions : Nat) : ℚ) *
      2 ^ (((x.rank.val / fractions : Nat) : ℤ) - 1075) := by
    unfold value magnitude
    dsimp only
    split <;> rfl
  rw [parts, rank]
  rw [size] at normal most ⊢
  rcases Nat.lt_or_ge m 4503599627370496 with small | large
  · -- Below the first power of two the steps are counted from zero.
    obtain rfl : k = 0 := by omega
    rw [if_pos (by omega), show (0 * 4503599627370496 + m) % 4503599627370496 = m by omega]
    norm_num [step]
  · rcases Nat.eq_or_lt_of_le most with rfl | small
    · rw [if_neg (by omega),
        show (k * 4503599627370496 + 2 * 4503599627370496) % 4503599627370496 = 0 by omega,
        show (k * 4503599627370496 + 2 * 4503599627370496) / 4503599627370496 = k + 2 by omega]
      have exponent : (2 : ℚ) ^ (((k + 2 : Nat) : ℤ) - 1075) = step (k + 1) := by
        unfold step
        congr 1
        push_cast
        ring
      rw [exponent, step_succ]
      push_cast
      ring
    · rw [if_neg (by omega),
        show (k * 4503599627370496 + m) % 4503599627370496 = m - 4503599627370496 by omega,
        show (k * 4503599627370496 + m) / 4503599627370496 = k + 1 by omega,
        show 4503599627370496 + (m - 4503599627370496) = m by omega]
      have exponent : (2 : ℚ) ^ (((k + 1 : Nat) : ℤ) - 1075) = step k := by
        unfold step
        congr 1
        push_cast
        ring
      rw [exponent]

/-- Every rank is such a count. -/
theorem exists_rank_eq (x : Double) :
    ∃ k m, x.rank.val = k * fractions + m ∧ (k = 0 ∨ fractions ≤ m) ∧ m < 2 * fractions := by
  have size : fractions = 4503599627370496 := rfl
  rw [size]
  refine ⟨x.rank.val / 4503599627370496 - 1,
    x.rank.val - (x.rank.val / 4503599627370496 - 1) * 4503599627370496, ?_, ?_, ?_⟩ <;> omega

/-- Fewer steps of a shorter length stay below the next power of two. -/
theorem mul_step_lt {j k m : Nat} (h : j < k) (less : m < 2 * fractions) :
    m * step j < fractions * step k := by
  have cast : (m : ℚ) < 2 * fractions := by exact_mod_cast less
  have bound := step_le_step h
  rw [step_succ] at bound
  have first := mul_lt_mul_of_pos_right cast (step_pos j)
  have second := mul_le_mul_of_nonneg_left bound (Nat.cast_nonneg (α := ℚ) fractions)
  linarith

/-- Enough steps of a greater length reach the next power of two. -/
theorem le_mul_step {j k m : Nat} (h : k < j) (enough : fractions ≤ m) :
    2 * fractions * step k ≤ m * step j := by
  have cast : (fractions : ℚ) ≤ m := by exact_mod_cast enough
  have bound := step_le_step h
  rw [step_succ] at bound
  have first := mul_le_mul_of_nonneg_right cast (step_pos j).le
  have second := mul_le_mul_of_nonneg_left bound (Nat.cast_nonneg (α := ℚ) fractions)
  linarith

section

variable {q : ℚ} {k s : Nat}

/-- In steps, the distances are those of whole numbers. -/
theorem NearestWhole.on_steps (whole : NearestWhole s (q / step k)) (j : Nat) :
    |s * step k - q| < |j * step k - q| ∨
      |s * step k - q| = |j * step k - q| ∧ (j = s ∨ s % 2 = 0) := by
  have pos := step_pos k
  have scaled (a : ℚ) : |a * step k - q| = |a - q / step k| * step k := by
    rw [← abs_of_pos pos, ← abs_mul, abs_of_pos pos, sub_mul, div_mul_cancel₀ _ pos.ne']
  rw [scaled, scaled]
  rcases whole j with near | ⟨near, same⟩
  · exact .inl (mul_lt_mul_of_pos_right near pos)
  · exact .inr ⟨by rw [near], same⟩

/-- What lies before these steps comes nearest at the power of two below, which is no nearer. -/
theorem NearestWhole.of_below (whole : NearestWhole s (q / step k)) (lower : fractions * step k ≤ q)
    {v : ℚ} (below : v < fractions * step k) : |s * step k - q| < |v - q| := by
  have near : |s * step k - q| ≤ |fractions * step k - q| :=
    (whole.on_steps fractions).elim le_of_lt fun same => same.1.le
  rw [abs_of_nonpos (a := fractions * step k - q) (by linarith)] at near
  rw [abs_of_neg (a := v - q) (by linarith)]
  linarith

/-- What lies behind them comes nearest at the power of two above, which is an even number of
steps. -/
theorem NearestWhole.of_above (whole : NearestWhole s (q / step k))
    (upper : q < 2 * fractions * step k) {v : ℚ} (above : 2 * fractions * step k ≤ v) :
    |s * step k - q| < |v - q| ∨ |s * step k - q| = |v - q| ∧ s % 2 = 0 := by
  have near := whole.on_steps (2 * fractions)
  push_cast at near
  rw [abs_of_pos (a := 2 * fractions * step k - q) (by linarith)] at near
  rw [abs_of_pos (a := v - q) (by linarith)]
  rcases near with near | ⟨near, even⟩
  · exact .inl (by linarith)
  · rcases above.lt_or_eq with further | same
    · exact .inl (by linarith)
    · refine .inr ⟨by linarith, ?_⟩
      rcases even with rfl | even
      · exact Nat.mul_mod_right 2 _
      · exact even

/-- What is nearest among the whole numbers of steps is nearest among all values. -/
theorem isNearest_of_steps {x : Double} (positive : x.negative = false)
    (isNumber : x.rank.val ≤ infinityRank) (rank : x.rank.val = k * fractions + s)
    (whole : NearestWhole s (q / step k)) (lower : k = 0 ∨ fractions * step k ≤ q)
    (upper : q < 2 * fractions * step k) : x.IsNearest q := by
  have pos := step_pos k
  have evenRank (h : s % 2 = 0) : x.rank.val % 2 = 0 := by
    have even : fractions % 2 = 0 := rfl
    rw [rank, Nat.add_mod, Nat.mul_mod, even, h]
    simp
  have most : s ≤ 2 * fractions := whole.le (by rw [div_lt_iff₀ pos]; exact_mod_cast upper)
  have least : k = 0 ∨ fractions ≤ s :=
    lower.imp_right fun lower => whole.ge (by rw [le_div_iff₀ pos]; exact lower)
  refine ⟨positive, isNumber, fun y _ => ?_⟩
  obtain ⟨j, m, rank', normal, less⟩ := exists_rank_eq y
  have value' := value_eq_of_rank rank' normal less.le
  rw [value_eq_of_rank rank least most]
  rcases Nat.lt_trichotomy j k with before | rfl | behind
  · have below : y.value < fractions * step k := value' ▸ mul_step_lt before less
    exact .inl (whole.of_below (lower.resolve_left (by omega)) below)
  · rw [value']
    rcases whole.on_steps m with near | ⟨near, rfl | even⟩
    · exact .inl near
    · exact .inr ⟨near, .inl (Fin.ext (rank'.trans rank.symm))⟩
    · exact .inr ⟨near, .inr (evenRank even)⟩
  · have above : 2 * fractions * step k ≤ y.value :=
      value' ▸ le_mul_step behind (normal.resolve_left (by omega))
    rcases whole.of_above upper above with near | ⟨near, even⟩
    · exact .inl near
    · exact .inr ⟨near, .inr (evenRank even)⟩

end

/-! ## Too large and too small -/

theorem value_congr {x y : Double} (h : x.rank = y.rank) : x.value = y.value := by
  unfold value magnitude
  rw [h]

theorem isNearest_infinity {q : ℚ} (h : fractions * step 2046 ≤ q) :
    (infinity false).IsNearest q := by
  have rank : (infinity false).rank.val = 2046 * fractions + fractions := rfl
  have value : (infinity false).value = fractions * step 2046 :=
    value_eq_of_rank rank (.inr (Nat.le_refl _)) (Nat.le_mul_of_pos_left _ (by decide))
  refine ⟨rfl, Nat.le_refl _, fun y number => ?_⟩
  obtain ⟨j, m, rank', normal, less⟩ := exists_rank_eq y
  have value' := value_eq_of_rank rank' normal less.le
  rcases Nat.eq_or_lt_of_le number with same | smaller
  · have same : y.rank = (infinity false).rank := Fin.ext same
    exact .inr ⟨by rw [value_congr same], .inl same⟩
  · have before : j < 2046 := by
      have size : fractions = 4503599627370496 := rfl
      have bound : infinityRank = 2047 * 4503599627370496 := rfl
      rw [rank', bound, size] at smaller
      rw [size] at normal
      omega
    have below := mul_step_lt before less
    rw [value, value', abs_of_nonpos (by linarith), abs_of_nonpos (by linarith)]
    exact .inl (by linarith)

theorem isNearest_zero {q : ℚ} (nonneg : 0 ≤ q) (h : 2 * q < step 0) :
    (ofRank false 0).IsNearest q := by
  have rank : (ofRank false 0).rank.val = 0 * fractions + 0 := rfl
  have value : (ofRank false 0).value = 0 := by
    rw [value_eq_of_rank rank (.inl rfl) (Nat.zero_le _), Nat.cast_zero, zero_mul]
  refine ⟨rfl, Nat.zero_le _, fun y _ => ?_⟩
  obtain ⟨j, m, rank', normal, less⟩ := exists_rank_eq y
  rcases Nat.eq_zero_or_pos m with rfl | some
  · obtain rfl : j = 0 := normal.resolve_right (by decide)
    have same : y.rank = (ofRank false 0).rank := Fin.ext rank'
    exact .inr ⟨by rw [value_congr same], .inl same⟩
  · have above : step 0 ≤ y.value := by
      have cast : (1 : ℚ) ≤ m := by exact_mod_cast some
      have first := mul_le_mul_of_nonneg_right cast (step_pos j).le
      have second := step_le_step (Nat.zero_le j)
      rw [value_eq_of_rank rank' normal less.le]
      linarith
    rw [value, zero_sub, abs_neg, abs_of_nonneg nonneg, abs_of_nonneg (by linarith)]
    exact .inl (by linarith)

/-! ## The length of steps -/

theorem fractions_mul_zpow (e : ℤ) : fractions * (2 : ℚ) ^ e = 2 ^ (e + 52) := by
  rw [zpow_add₀ (by norm_num), mul_comm]
  norm_num [fractions]

/-- A power with an integer exponent, as a quotient. -/
theorem zpow_eq_div {b : ℚ} (hb : b ≠ 0) (e : ℤ) : b ^ e = b ^ e.toNat / b ^ (-e).toNat := by
  rw [← zpow_natCast, ← zpow_natCast, ← zpow_sub₀ hb]
  congr 1
  omega

theorem div_two_zpow (n d : Nat) (e : ℤ) :
    ((n * Nat.pow 2 (-e).toNat : Nat) : ℚ) / ((d * Nat.pow 2 e.toNat : Nat) : ℚ) =
      n / d / 2 ^ e := by
  rw [zpow_eq_div (by norm_num), Nat.pow_eq, Nat.pow_eq]
  push_cast
  field_simp

/-- The quotient of two numbers, by their numbers of binary digits. -/
theorem div_bounds {n d : Nat} (hn : 0 < n) (hd : 0 < d) :
    (2 : ℚ) ^ ((n.log2 : ℤ) - d.log2 - 1) < n / d ∧
      (n : ℚ) / d < 2 ^ ((n.log2 : ℤ) - d.log2 + 1) := by
  have positive : (0 : ℚ) < d := by exact_mod_cast hd
  have nLower : (2 : ℚ) ^ (n.log2 : ℤ) ≤ n := by exact_mod_cast Nat.log2_self_le hn.ne'
  have nUpper : (n : ℚ) < 2 ^ ((n.log2 : ℤ) + 1) := by exact_mod_cast Nat.lt_log2_self
  have dLower : (2 : ℚ) ^ (d.log2 : ℤ) ≤ d := by exact_mod_cast Nat.log2_self_le hd.ne'
  have dUpper : (d : ℚ) < 2 ^ ((d.log2 : ℤ) + 1) := by exact_mod_cast Nat.lt_log2_self
  constructor
  · rw [lt_div_iff₀ positive]
    calc (2 : ℚ) ^ ((n.log2 : ℤ) - d.log2 - 1) * d
      _ < 2 ^ ((n.log2 : ℤ) - d.log2 - 1) * 2 ^ ((d.log2 : ℤ) + 1) :=
        mul_lt_mul_of_pos_left dUpper (by positivity)
      _ = 2 ^ (n.log2 : ℤ) := by
        rw [← zpow_add₀ (by norm_num)]
        congr 1
        ring
      _ ≤ n := nLower
  · rw [div_lt_iff₀ positive]
    calc (n : ℚ)
      _ < 2 ^ ((n.log2 : ℤ) + 1) := nUpper
      _ = 2 ^ ((n.log2 : ℤ) - d.log2 + 1) * 2 ^ (d.log2 : ℤ) := by
        rw [← zpow_add₀ (by norm_num)]
        congr 1
        ring
      _ ≤ 2 ^ ((n.log2 : ℤ) - d.log2 + 1) * d := mul_le_mul_of_nonneg_left dLower (by positivity)

/-- In the steps that are chosen, a number has 53 binary digits, or fewer in the shortest steps. -/
theorem stepExponent_bounds {n d : Nat} (hn : 0 < n) (hd : 0 < d) :
    -1074 ≤ stepExponent n d ∧ (n : ℚ) / d < 2 * fractions * 2 ^ stepExponent n d ∧
      (stepExponent n d = -1074 ∨ fractions * 2 ^ stepExponent n d ≤ (n : ℚ) / d) := by
  have twice (e : ℤ) : 2 * fractions * (2 : ℚ) ^ e = 2 ^ (e + 53) := by
    rw [mul_assoc, fractions_mul_zpow, ← zpow_one_add₀ (by norm_num)]
    congr 1
    ring
  obtain ⟨lower, upper⟩ := div_bounds hn hd
  have test (e : ℤ) : n * Nat.pow 2 (-e).toNat < d * Nat.pow 2 e.toNat * fractions ↔
      (n : ℚ) / d < 2 ^ (e + 52) := by
    have positive : (0 : ℚ) < ((d * Nat.pow 2 e.toNat : Nat) : ℚ) := by
      exact_mod_cast Nat.mul_pos hd (Nat.pow_pos (by decide))
    rw [← fractions_mul_zpow, ← div_lt_iff₀ (by positivity), ← div_two_zpow,
      div_lt_iff₀ positive, Nat.mul_comm _ fractions]
    norm_cast
  rw [fractions_mul_zpow, twice, stepExponent]
  generalize (n.log2 : ℤ) - d.log2 = l at lower upper ⊢
  -- One of the two exponents that the numbers of digits leave fits.
  obtain ⟨e, chosen, lower, upper⟩ : ∃ e : ℤ, (if n * Nat.pow 2 (-(l - 52)).toNat <
      d * Nat.pow 2 (l - 52).toNat * fractions then l - 52 - 1 else l - 52) = e ∧
      (2 : ℚ) ^ (e + 52) ≤ n / d ∧ (n : ℚ) / d < 2 ^ (e + 53) := by
    refine ⟨_, rfl, ?_⟩
    split
    · rename_i less
      rw [test] at less
      rw [show l - 52 - 1 + 52 = l - 1 by ring, show l - 52 - 1 + 53 = l by ring]
      rw [show l - 52 + 52 = l by ring] at less
      exact ⟨lower.le, less⟩
    · rename_i notLess
      rw [test, not_lt] at notLess
      rw [show l - 52 + 53 = l + 1 by ring]
      exact ⟨notLess, upper⟩
  simp only [chosen]
  refine ⟨le_max_right _ _, upper.trans_le ?_, ?_⟩
  · exact zpow_le_zpow_right₀ (by norm_num) (by omega)
  · rcases le_total e (-1074) with small | large
    · exact .inl (max_eq_right small)
    · rw [max_eq_left large]
      exact .inr lower

/-! ## Reading -/

/-- A fraction is read as the value nearest to it. -/
theorem isNearest_ofFraction (n : Nat) {d : Nat} (hd : 0 < d) :
    (ofFraction false n d).IsNearest (n / d) := by
  unfold ofFraction
  split
  · rename_i zero
    subst zero
    rw [Nat.cast_zero, zero_div]
    exact isNearest_zero le_rfl (by rw [mul_zero]; exact step_pos 0)
  · rename_i nonzero
    obtain ⟨least, upper, lower⟩ := stepExponent_bounds (Nat.pos_of_ne_zero nonzero) hd
    dsimp only
    generalize stepExponent n d = e at least upper lower ⊢
    have length : (2 : ℚ) ^ e = step (e + 1074).toNat := by
      unfold step
      congr 1
      omega
    have whole : NearestWhole (steps n d e) (n / d / step (e + 1074).toNat) := by
      rw [← length, ← div_two_zpow]
      exact nearestWhole_roundDiv _ (Nat.mul_pos hd (Nat.pow_pos (by decide)))
    rw [length] at upper lower
    have lower : (e + 1074).toNat = 0 ∨ fractions * step (e + 1074).toNat ≤ (n : ℚ) / d :=
      lower.imp_left fun h => by omega
    generalize (e + 1074).toNat = k at whole upper lower ⊢
    generalize steps n d e = s at whole ⊢
    rcases Nat.lt_or_ge infinityRank (k * fractions + s) with large | number
    · -- Past infinity, the number is at least the power of two that stands for it.
      have infinite : ofRank false (k * fractions + s) = infinity false := by
        simp [infinity, ofRank, large.le]
      have most : s ≤ 2 * fractions :=
        whole.le (by rw [div_lt_iff₀ (step_pos k)]; exact_mod_cast upper)
      have behind : 2046 ≤ k := by
        have size : fractions = 4503599627370496 := rfl
        have bound : infinityRank = 2047 * 4503599627370496 := rfl
        rw [bound, size] at large
        rw [size] at most
        omega
      rw [infinite]
      refine isNearest_infinity (le_trans ?_ (lower.resolve_left (by omega)))
      exact mul_le_mul_of_nonneg_left (step_le_step behind) (Nat.cast_nonneg _)
    · exact isNearest_of_steps rfl (Nat.min_le_right _ _) (Nat.min_eq_left number) whole lower upper

/-- Ten is more than eight. -/
theorem ten_zpow_le {e : ℤ} (h : e ≤ 0) : (10 : ℚ) ^ e ≤ 2 ^ (3 * e) := by
  obtain ⟨k, rfl⟩ : ∃ k : Nat, e = -k := ⟨e.natAbs, by omega⟩
  rw [zpow_mul, zpow_neg, zpow_neg, zpow_natCast, zpow_natCast]
  gcongr
  norm_num

theorem le_ten_zpow {e : ℤ} (h : 0 ≤ e) : (2 : ℚ) ^ (3 * e) ≤ 10 ^ e := by
  obtain ⟨k, rfl⟩ : ∃ k : Nat, e = k := ⟨e.natAbs, by omega⟩
  rw [zpow_mul, zpow_natCast, zpow_natCast]
  gcongr
  norm_num

/-- A numeral is read as the value nearest to it, also where its size in binary digits tells it. -/
theorem isNearest_ofDecimal (digits : Nat) (exponent : ℤ) :
    (ofDecimal false digits exponent).IsNearest (digits * 10 ^ exponent) := by
  unfold ofDecimal
  dsimp only
  split
  · rename_i small
    refine isNearest_zero (by positivity) ?_
    rcases small with rfl | ⟨negative, small⟩
    · rw [Nat.cast_zero, zero_mul, mul_zero]
      exact step_pos 0
    · have upper : (digits : ℚ) < 2 ^ ((digits.log2 : ℤ) + 1) := by exact_mod_cast Nat.lt_log2_self
      calc 2 * ((digits : ℚ) * 10 ^ exponent)
        _ < 2 * (2 ^ ((digits.log2 : ℤ) + 1) * 10 ^ exponent) := by gcongr
        _ ≤ 2 * (2 ^ ((digits.log2 : ℤ) + 1) * 2 ^ (3 * exponent)) := by
          gcongr
          exact ten_zpow_le negative.le
        _ = 2 ^ ((digits.log2 : ℤ) + 3 * exponent + 2) := by
          rw [← zpow_add₀ (by norm_num), ← zpow_one_add₀ (by norm_num)]
          congr 1
          ring
        _ ≤ step 0 := zpow_le_zpow_right₀ (by norm_num) (by push_cast; omega)
  · split
    · rename_i large
      refine isNearest_infinity ?_
      by_cases zero : digits = 0
      · exact absurd (Or.inl zero) ‹_›
      have lower : (2 : ℚ) ^ (digits.log2 : ℤ) ≤ digits := by
        exact_mod_cast Nat.log2_self_le zero
      calc fractions * step 2046
        _ = 2 ^ (1024 : ℤ) := fractions_mul_zpow _
        _ ≤ 2 ^ ((digits.log2 : ℤ) + 3 * exponent) := zpow_le_zpow_right₀ (by norm_num) large.2
        _ = 2 ^ (digits.log2 : ℤ) * 2 ^ (3 * exponent) := zpow_add₀ (by norm_num) _ _
        _ ≤ digits * 10 ^ exponent := by
          gcongr
          exact le_ten_zpow large.1
    · have fraction : (digits : ℚ) * 10 ^ exponent =
          ((digits * Nat.pow 10 exponent.toNat : Nat) : ℚ) /
            (Nat.pow 10 (-exponent).toNat : Nat) := by
        rw [zpow_eq_div (by norm_num), Nat.pow_eq, Nat.pow_eq]
        push_cast
        ring
      rw [fraction]
      exact isNearest_ofFraction _ (Nat.pow_pos (by decide))

/-- A numeral with a fraction is read as the value nearest to it. -/
theorem isNearest_ofParts (whole fraction : List Char) :
    (ofParts whole fraction).IsNearest
      (digitsValue (whole ++ fraction) / 10 ^ fraction.length) := by
  have nearest := isNearest_ofDecimal (digitsValue (whole ++ fraction)) (-fraction.length)
  rwa [zpow_neg, zpow_natCast, ← div_eq_mul_inv] at nearest

/-! ## Uniqueness -/

/-- The values grow with their ranks. -/
theorem value_lt_value {x y : Double} (h : x.rank.val < y.rank.val) : x.value < y.value := by
  obtain ⟨j, m, rank, normal, less⟩ := exists_rank_eq x
  obtain ⟨k, l, rank', normal', less'⟩ := exists_rank_eq y
  rw [value_eq_of_rank rank normal less.le, value_eq_of_rank rank' normal' less'.le]
  rw [rank, rank'] at h
  rcases Nat.lt_trichotomy j k with before | rfl | behind
  · refine (mul_step_lt before less).trans_le ?_
    have cast : (fractions : ℚ) ≤ l := by exact_mod_cast normal'.resolve_left (by omega)
    exact mul_le_mul_of_nonneg_right cast (step_pos k).le
  · have cast : (m : ℚ) < l := by exact_mod_cast Nat.lt_of_add_lt_add_left h
    exact mul_lt_mul_of_pos_right cast (step_pos j)
  · have large := normal.resolve_left (by omega)
    have more : (k + 1) * fractions ≤ j * fractions := Nat.mul_le_mul_right _ behind
    rw [Nat.succ_mul] at more
    omega

/-- Of two nearest values, each would be even, but between two even ones there is a nearer one. -/
theorem IsNearest.rank_le {x y : Double} {q : ℚ} (hx : x.IsNearest q) (hy : y.IsNearest q) :
    y.rank.val ≤ x.rank.val := by
  by_contra less
  have less : x.rank.val < y.rank.val := not_le.1 less
  have other : y.rank ≠ x.rank := fun same => by rw [same] at less; omega
  obtain ⟨equal, even, even'⟩ : |x.value - q| = |y.value - q| ∧ x.rank.val % 2 = 0 ∧
      y.rank.val % 2 = 0 := by
    rcases hx.nearest y hy.isNumber with near | ⟨equal, even⟩
    · rcases hy.nearest x hx.isNumber with near' | ⟨equal, -⟩
      · exact absurd near near'.asymm
      · exact absurd equal near.ne'
    · rcases hy.nearest x hx.isNumber with near' | ⟨-, even'⟩
      · exact absurd equal near'.ne'
      · exact ⟨equal, even.resolve_left other, even'.resolve_left other.symm⟩
  have number := hy.isNumber
  obtain ⟨z, rank⟩ : ∃ z : Double, z.rank.val = x.rank.val + 1 :=
    ⟨ofRank false (x.rank.val + 1), Nat.min_eq_left (by omega)⟩
  have low : x.value < z.value := value_lt_value (by omega)
  have high : z.value < y.value := value_lt_value (by omega)
  have middle : x.value - q = -(y.value - q) :=
    (abs_eq_abs.1 equal).resolve_left (by linarith)
  have nearer : |z.value - q| < |x.value - q| := by
    rw [abs_of_neg (a := x.value - q) (by linarith), abs_lt]
    constructor <;> linarith
  rcases hx.nearest z (by omega) with near | ⟨same, -⟩
  · exact absurd near nearer.asymm
  · exact absurd same nearer.ne'

/-- There is one nearest value. -/
theorem IsNearest.unique {x y : Double} {q : ℚ} (hx : x.IsNearest q) (hy : y.IsNearest q) :
    x = y := by
  have rank := Nat.le_antisymm (hy.rank_le hx) (hx.rank_le hy)
  obtain ⟨negative, r⟩ := x
  obtain ⟨negative', r'⟩ := y
  obtain rfl : negative = negative' := hx.positive.trans hy.positive.symm
  exact congrArg _ (Fin.ext rank)

end OnePass.Double
