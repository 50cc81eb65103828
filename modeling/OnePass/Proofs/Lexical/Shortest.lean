import Mathlib.Data.List.TakeWhile
import OnePass.Double.Text
import OnePass.Proofs.Lexical.Rounding

/-!
# Doubles as they are shown

A value is shown by a decimal in its interval, and whatever lies in the interval is read as the
value. On the grid of seventeen digits there is always such a decimal: its points are closer to each
other than the values are, and above a power of two, where the values before it are closer, less
than half as far apart. Main theorem `read?_text`.
-/

namespace OnePass.Double

/-! ## The interval of a value -/

section

variable {x : Double} {k m : Nat}

theorem magnitude_eq (rank : x.rank.val = k * fractions + m) (normal : k = 0 ∨ fractions ≤ m)
    (less : m < 2 * fractions) : x.magnitude = ⟨m, (k : ℤ) - 1074⟩ := by
  have size : fractions = 4503599627370496 := rfl
  rw [size] at rank normal less
  unfold magnitude
  dsimp only
  rw [size, rank]
  split_ifs with field
  · have : k = 0 := by omega
    rw [Magnitude.mk.injEq]
    omega
  · rw [Magnitude.mk.injEq]
    omega

/-- The values below lie closer together exactly if the significand is the smallest of its size. -/
theorem below_eq (rank : x.rank.val = k * fractions + m) (normal : k = 0 ∨ fractions ≤ m)
    (less : m < 2 * fractions) :
    (x.rank.val % fractions = 0 ∧ x.rank.val / fractions > 1) ↔ 0 < k ∧ m = fractions := by
  have size : fractions = 4503599627370496 := rfl
  rw [size] at rank normal less ⊢
  omega

/-- The ends of an interval, over its denominator. -/
structure Ends (i : Interval) (low value high : ℚ) : Prop where
  positive : 0 < i.denominator
  low : (i.low : ℚ) = low * i.denominator
  value : (i.value : ℚ) = value * i.denominator
  high : (i.high : ℚ) = high * i.denominator

theorem ends_interval (rank : x.rank.val = k * fractions + m) (normal : k = 0 ∨ fractions ≤ m)
    (less : m < 2 * fractions) (pos : 0 < m) :
    Ends x.interval ((m - if 0 < k ∧ m = fractions then 1 / 4 else 1 / 2) * step k) (m * step k)
      ((m + 1 / 2) * step k) ∧ (x.interval.closed = true ↔ m % 2 = 0) := by
  have scale : (Nat.pow 2 ((k : ℤ) - 1074).toNat : Nat) =
      step k * (Nat.pow 2 (-((k : ℤ) - 1074)).toNat : Nat) := by
    rw [step, zpow_eq_div (by norm_num), Nat.pow_eq, Nat.pow_eq]
    push_cast
    field_simp
  unfold interval
  rw [magnitude_eq rank normal less]
  simp only [below_eq rank normal less]
  refine ⟨⟨?_, ?_, ?_, ?_⟩, ?_⟩
  · exact Nat.mul_pos (by decide) (Nat.pow_pos (by decide))
  · split_ifs
    · rw [Nat.cast_mul, Nat.cast_sub (by omega), scale]
      push_cast
      ring
    · rw [Nat.cast_mul, Nat.cast_sub (by omega), scale]
      push_cast
      ring
  · rw [Nat.cast_mul, scale]
    push_cast
    ring
  · rw [Nat.cast_mul, scale]
    push_cast
    ring
  · simp

end

section

variable {i : Interval} {low value high : ℚ}

theorem Ends.contains_iff (h : Ends i low value high) (n : Nat) {d : Nat} (hd : 0 < d) :
    i.contains n d = true ↔
      (low < n / d ∨ i.closed = true ∧ low = n / d) ∧
        ((n : ℚ) / d < high ∨ i.closed = true ∧ (n : ℚ) / d = high) := by
  have positive : (0 : ℚ) < i.denominator := by exact_mod_cast h.positive
  have positive' : (0 : ℚ) < d := by exact_mod_cast hd
  -- all comparisons are made over the product of the denominators
  have scaled (a : Nat) (v : ℚ) (ha : (a : ℚ) = v * i.denominator) :
      ((a * d : Nat) : ℚ) = v * (i.denominator * d) ∧
        ((n * i.denominator : Nat) : ℚ) = n / d * (i.denominator * d) := by
    constructor
    · rw [Nat.cast_mul, ha]
      ring
    · push_cast
      field_simp
  have product : (0 : ℚ) < i.denominator * d := by positivity
  obtain ⟨lows, here⟩ := scaled _ _ h.low
  obtain ⟨highs, -⟩ := scaled _ _ h.high
  simp only [Interval.contains, Bool.and_eq_true, Bool.or_eq_true, decide_eq_true_eq, beq_iff_eq,
    ← Nat.cast_lt (α := ℚ), ← Nat.cast_inj (R := ℚ), lows, highs, here,
    mul_lt_mul_iff_left₀ product, mul_left_inj' product.ne']

end

/-- What is within half a step is rounded to the step, at its ends if it is even. -/
theorem nearestWhole_of_near {s : Nat} {t : ℚ}
    (near : |(s : ℚ) - t| < 1 / 2 ∨ |(s : ℚ) - t| = 1 / 2 ∧ s % 2 = 0) : NearestWhole s t := by
  intro j
  by_cases same : j = s
  · exact .inr ⟨by rw [same], .inl same⟩
  · have apart : 1 ≤ |(s : ℚ) - t| + |(j : ℚ) - t| := by
      have whole : (1 : ℚ) ≤ |(s : ℚ) - j| := by
        have : (1 : ℤ) ≤ |(s : ℤ) - j| := Int.one_le_abs (by omega)
        exact_mod_cast this
      have triangle := abs_sub_le (s : ℚ) t j
      rw [abs_sub_comm t] at triangle
      linarith
    rcases near with near | ⟨near, even⟩
    · exact .inl (by linarith)
    · rcases lt_or_eq_of_le (show |(s : ℚ) - t| ≤ |(j : ℚ) - t| by linarith) with less | equal
      · exact .inl less
      · exact .inr ⟨equal, .inr even⟩

theorem nearestWhole_of_le {s : Nat} {t : ℚ} (even : s % 2 = 0) (low : s - 1 / 2 ≤ t)
    (high : t ≤ s + 1 / 2) : NearestWhole s t := by
  refine nearestWhole_of_near ?_
  rcases lt_or_eq_of_le (abs_le.2 ⟨by linarith, by linarith⟩ : |(s : ℚ) - t| ≤ 1 / 2) with h | h
  · exact .inl h
  · exact .inr ⟨h, even⟩

section

variable {x : Double} {k m : Nat} {q : ℚ}

/-- What is within half a step of a value is read as that value. -/
theorem isNearest_of_half_step (positive : x.negative = false) (finite : x.rank.val < infinityRank)
    (rank : x.rank.val = k * fractions + m) (less : m < 2 * fractions)
    (lower : k = 0 ∨ fractions * step k ≤ q)
    (low : (m - 1 / 2) * step k < q ∨ m % 2 = 0 ∧ (m - 1 / 2) * step k ≤ q)
    (high : q < (m + 1 / 2) * step k ∨ m % 2 = 0 ∧ q ≤ (m + 1 / 2) * step k) :
    x.IsNearest q := by
  have pos := step_pos k
  have cast : (m : ℚ) + 1 ≤ 2 * fractions := by exact_mod_cast less
  have low' : (m - 1 / 2) * step k ≤ q := low.elim le_of_lt And.right
  have high' : q ≤ (m + 1 / 2) * step k := high.elim le_of_lt And.right
  have upper : q < 2 * fractions * step k := by
    have := mul_le_mul_of_nonneg_right cast pos.le
    linarith
  refine isNearest_of_steps positive finite.le rank ?_ lower upper
  by_cases even : m % 2 = 0
  · exact nearestWhole_of_le even ((le_div_iff₀ pos).2 low') ((div_le_iff₀ pos).2 high')
  · refine nearestWhole_of_near (.inl (abs_lt.2 ⟨?_, ?_⟩))
    · have := (div_lt_iff₀ pos).2 (high.resolve_right fun h => even h.1)
      linarith
    · have := (lt_div_iff₀ pos).2 (low.resolve_right fun h => even h.1)
      linarith

/-- Below a power of two the steps are half as long: what is within half of one of them is read as
the power. -/
theorem isNearest_of_below_power (positive : x.negative = false)
    (finite : x.rank.val < infinityRank) (rank : x.rank.val = (k + 1) * fractions + fractions)
    (low : (fractions - 1 / 4) * step (k + 1) ≤ q) (below : q < fractions * step (k + 1)) :
    x.IsNearest q := by
  have size : fractions = 4503599627370496 := rfl
  have half := step_pos k
  rw [step_succ] at low below
  have lower : fractions * step k ≤ q := by
    have large : (1 : ℚ) ≤ fractions := by rw [size]; norm_num
    have := mul_le_mul_of_nonneg_right large half.le
    linarith
  refine isNearest_of_steps positive finite.le (k := k) (s := 2 * fractions) ?_ ?_ (.inr lower) ?_
  · rw [rank, Nat.succ_mul]
    ring
  · refine nearestWhole_of_le (Nat.mul_mod_right 2 _) ?_ ?_
    · rw [le_div_iff₀ half]
      push_cast
      linarith
    · rw [div_le_iff₀ half]
      push_cast
      linarith
  · linarith

end

/-- Whatever lies in the interval of a value is read as that value. -/
theorem isNearest_of_contains {x : Double} (positive : x.negative = false)
    (finite : x.rank.val < infinityRank) (nonzero : x.rank.val ≠ 0) {n d : Nat} (hd : 0 < d)
    (inside : x.interval.contains n d = true) : x.IsNearest (n / d) := by
  have size : fractions = 4503599627370496 := rfl
  obtain ⟨k, m, rank, normal, less⟩ := exists_rank_eq x
  have some : 0 < m := by
    rw [size] at rank normal
    omega
  obtain ⟨ends, closed⟩ := ends_interval rank normal less some
  rw [ends.contains_iff n hd, closed] at inside
  generalize (n : ℚ) / d = q at inside ⊢
  obtain ⟨low, high⟩ := inside
  have pos := step_pos k
  by_cases lower : k = 0 ∨ fractions * step k ≤ q
  · refine isNearest_of_half_step positive finite rank less lower ?_
      (high.imp_right fun h => ⟨h.1, h.2.le⟩)
    split_ifs at low
    · rcases low with low | ⟨-, low⟩ <;> exact .inl (by linarith)
    · exact low.imp_right fun h => ⟨h.1, h.2.le⟩
  · obtain ⟨above, below⟩ := not_or.1 lower
    obtain ⟨k, rfl⟩ := Nat.exists_eq_succ_of_ne_zero above
    rw [not_le] at below
    -- a value that is no power of two has its half step among values of its own size
    have power : m = fractions := by
      by_contra other
      have more : (fractions : ℚ) + 1 ≤ m := by
        have : fractions + 1 ≤ m := by omega
        exact_mod_cast this
      have bound := mul_le_mul_of_nonneg_right more pos.le
      simp only [other, and_false, if_false] at low
      rcases low with h | ⟨-, h⟩ <;> linarith
    subst power
    simp only [Nat.succ_pos, and_self, if_true] at low
    exact isNearest_of_below_power positive finite rank (low.elim le_of_lt fun h => h.2.le) below

/-! ## Seventeen digits -/

theorem ten_zpow (n : Nat) (e : ℤ) :
    ((n * Nat.pow 10 e.toNat : Nat) : ℚ) / (Nat.pow 10 (-e).toNat : Nat) = n * 10 ^ e := by
  rw [zpow_eq_div (by norm_num), Nat.pow_eq, Nat.pow_eq]
  push_cast
  ring

theorem lt_ten_pow_digitCount (n : Nat) : n < 10 ^ digitCount n := by
  unfold digitCount
  split_ifs with zero
  · simp [zero]
  · exact (Nat.length_toDigits_le_iff (by decide) Nat.length_toDigits_pos).1 le_rfl

theorem ten_pow_le_of_digitCount {n c : Nat} (h : digitCount n = c + 1) : 10 ^ c ≤ n := by
  unfold digitCount at h
  split_ifs at h with zero
  by_contra less
  rcases Nat.eq_zero_or_pos c with rfl | pos
  · omega
  · have := (Nat.length_toDigits_le_iff (b := 10) (by decide) pos).2 (not_le.1 less)
    omega

/-- The leading digit of a number is not beyond it. -/
theorem ten_zpow_leadingExponent_le {n d : Nat} (hn : 0 < n) (hd : 0 < d) :
    (10 : ℚ) ^ leadingExponent n d ≤ n / d := by
  have positive : (0 : ℚ) < d := by exact_mod_cast hd
  unfold leadingExponent
  split_ifs with large
  · obtain ⟨c, count⟩ : ∃ c, digitCount (n / d) = c + 1 := by
      refine Nat.exists_eq_succ_of_ne_zero fun none => ?_
      have := lt_ten_pow_digitCount (n / d)
      have := Nat.div_pos large hd
      rw [none] at *
      omega
    have bound := ten_pow_le_of_digitCount count
    rw [Nat.le_div_iff_mul_le hd] at bound
    rw [count, le_div_iff₀ positive]
    push_cast
    rw [add_sub_cancel_right, zpow_natCast]
    exact_mod_cast bound
  · have bound := lt_ten_pow_digitCount ((d - 1) / n)
    rw [Nat.div_lt_iff_lt_mul hn] at bound
    rw [zpow_neg, zpow_natCast, inv_le_iff_one_le_mul₀ (by positivity), div_mul_eq_mul_div,
      one_le_div positive]
    have : d ≤ n * 10 ^ digitCount ((d - 1) / n) := by
      rw [Nat.mul_comm]
      omega
    exact_mod_cast this

section

variable {i : Interval} {low value high : ℚ} {e : ℤ}

/-- The point of the grid `10 ^ e` below the value, in units of the grid. -/
def Interval.floor (i : Interval) (e : ℤ) : Nat :=
  i.value * Nat.pow 10 (-e).toNat / (i.denominator * Nat.pow 10 e.toNat)

/-- The value lies between its neighbours on a grid. -/
theorem Ends.floor_bounds (h : Ends i low value high) (e : ℤ) :
    (i.floor e : ℚ) * 10 ^ e ≤ value ∧ value < ((i.floor e + 1 : Nat) : ℚ) * 10 ^ e := by
  have up : 0 < Nat.pow 10 e.toNat := Nat.pow_pos (by decide)
  have down : 0 < Nat.pow 10 (-e).toNat := Nat.pow_pos (by decide)
  have positive : (0 : ℚ) < i.denominator := by exact_mod_cast h.positive
  have positive' : (0 : ℚ) < (Nat.pow 10 (-e).toNat : Nat) := by exact_mod_cast down
  have lower : i.floor e * (i.denominator * Nat.pow 10 e.toNat) ≤
      i.value * Nat.pow 10 (-e).toNat := Nat.div_mul_le_self _ _
  have upper : i.value * Nat.pow 10 (-e).toNat <
      (i.floor e + 1) * (i.denominator * Nat.pow 10 e.toNat) := by
    rw [Nat.mul_comm (i.floor e + 1)]
    exact Nat.lt_mul_div_succ _ (Nat.mul_pos h.positive up)
  have point (n : Nat) : (n : ℚ) * 10 ^ e =
      (n * (i.denominator * Nat.pow 10 e.toNat) : Nat) /
        (i.denominator * (Nat.pow 10 (-e).toNat : Nat)) := by
    rw [← ten_zpow]
    push_cast
    field_simp
  have here : value = (i.value * Nat.pow 10 (-e).toNat : Nat) /
      (i.denominator * (Nat.pow 10 (-e).toNat : Nat)) := by
    rw [Nat.cast_mul, h.value]
    field_simp
  rw [point, point, here]
  constructor
  · gcongr
  · gcongr

theorem contains_of_onGrid? {d : Decimal} (h : i.onGrid? e = some d) :
    d.exponent = e ∧ i.contains (d.digits * Nat.pow 10 e.toNat) (Nat.pow 10 (-e).toNat) = true := by
  unfold Interval.onGrid? at h
  simp only [Bool.and_eq_true] at h
  split_ifs at h with lower upper
  · cases h
    exact ⟨rfl, lower.1⟩
  · cases h
    exact ⟨rfl, upper⟩

/-- A grid has a decimal to offer if one of the neighbours lies in the interval. -/
theorem isSome_onGrid?
    (near : i.contains (i.floor e * Nat.pow 10 e.toNat) (Nat.pow 10 (-e).toNat) = true ∨
      i.contains ((i.floor e + 1) * Nat.pow 10 e.toNat) (Nat.pow 10 (-e).toNat) = true) :
    (i.onGrid? e).isSome = true := by
  unfold Interval.floor at near
  unfold Interval.onGrid?
  simp only
  split_ifs with lower upper
  · rfl
  · rfl
  · simp_all

/-- If the last grid has a decimal to offer, then one of the grids has offered its own. -/
theorem exists_onGrid?_coarsest (i : Interval) (e : ℤ) (finer : Nat)
    (last : (i.onGrid? (e - finer)).isSome = true) :
    ∃ e', i.onGrid? e' = some (i.coarsest e finer) := by
  induction finer generalizing e with
  | zero =>
    obtain ⟨d, found⟩ := Option.isSome_iff_exists.1 last
    rw [Nat.cast_zero, sub_zero] at found
    exact ⟨e, by rw [Interval.coarsest, found, Option.getD_some]⟩
  | succ finer ih =>
    rw [Interval.coarsest]
    cases found : i.onGrid? e with
    | some d => exact ⟨e, found⟩
    | none =>
      refine ih (e - 1) ?_
      rwa [Nat.cast_succ, show e - (finer + 1) = e - 1 - finer by ring] at last

end

/-- **Seventeen digits suffice.** -/
theorem exists_onGrid?_shortest {x : Double} (nonzero : x.rank.val ≠ 0) :
    ∃ e, x.interval.onGrid? e = some x.shortest := by
  have size : fractions = 4503599627370496 := rfl
  obtain ⟨k, m, rank, normal, less⟩ := exists_rank_eq x
  have some : 0 < m := by
    rw [size] at rank normal
    omega
  obtain ⟨ends, -⟩ := ends_interval rank normal less some
  have pos := step_pos k
  have positive : (0 : ℚ) < x.interval.denominator := by exact_mod_cast ends.positive
  -- the units of the grid are small, as measured by the value
  have units : (10 : ℚ) ^ (leadingExponent x.interval.value x.interval.denominator -
      ((16 : Nat) : ℤ)) * 10 ^ 16 ≤ m * step k := by
    have nonzero : 0 < x.interval.value := by
      have : (0 : ℚ) < x.interval.value := by
        rw [ends.value]
        positivity
      exact_mod_cast this
    have bound := ten_zpow_leadingExponent_le nonzero ends.positive
    rw [ends.value, mul_div_cancel_right₀ _ positive.ne'] at bound
    rwa [zpow_sub₀ (by norm_num), zpow_natCast, div_mul_cancel₀ _ (by norm_num)]
  refine exists_onGrid?_coarsest _ _ 16 (isSome_onGrid? ?_)
  generalize leadingExponent x.interval.value x.interval.denominator - ((16 : Nat) : ℤ) = e
    at units ⊢
  have down : 0 < Nat.pow 10 (-e).toNat := Nat.pow_pos (by decide)
  obtain ⟨below, above⟩ := ends.floor_bounds e
  rw [ends.contains_iff _ down, ends.contains_iff _ down, ten_zpow, ten_zpow]
  push_cast at above ⊢
  by_cases power : 0 < k ∧ m = fractions
  · -- above a power of two, the upper neighbour is near enough
    have short : (10 : ℚ) ^ e < step k / 2 := by
      rw [power.2, size] at units
      push_cast at units
      linarith
    simp only [power, and_self, if_true] at above below ⊢
    exact .inr ⟨.inl (by linarith), .inl (by linarith)⟩
  · -- elsewhere the nearer one of both is
    have short : (10 : ℚ) ^ e < step k := by
      have cast : (m : ℚ) < 2 * fractions := by exact_mod_cast less
      have bound := mul_lt_mul_of_pos_right cast pos
      rw [size] at bound
      push_cast at bound
      linarith
    rw [if_neg power]
    by_cases near : m * step k - x.interval.floor e * 10 ^ e < step k / 2
    · exact .inl ⟨.inl (by linarith), .inl (by linarith)⟩
    · exact .inr ⟨.inl (by linarith), .inl (by linarith)⟩

/-- The shortest decimal of a value is read as that value. -/
theorem isNearest_shortest {x : Double} (positive : x.negative = false)
    (finite : x.rank.val < infinityRank) (nonzero : x.rank.val ≠ 0) :
    x.IsNearest (x.shortest.digits * 10 ^ x.shortest.exponent) := by
  obtain ⟨e, found⟩ := exists_onGrid?_shortest nonzero
  obtain ⟨exponent, inside⟩ := contains_of_onGrid? found
  have down : 0 < Nat.pow 10 (-e).toNat := Nat.pow_pos (by decide)
  have nearest := isNearest_of_contains positive finite nonzero down inside
  rwa [ten_zpow, ← exponent] at nearest

/-! ## Digits -/

theorem digitsValue_eq_ofDigitChars (ds : List Char) : digitsValue ds = Nat.ofDigitChars 10 ds 0 :=
  Nat.ofDigitChars_eq_foldl.symm

theorem digitsValue_zeros_append (n : Nat) (ds : List Char) :
    digitsValue (zeros n ++ ds) = digitsValue ds := by
  simp [digitsValue_eq_ofDigitChars, Nat.ofDigitChars_append, zeros,
    Nat.ofDigitChars_replicate_zero]

theorem digitsValue_append_zeros (ds : List Char) (n : Nat) :
    digitsValue (ds ++ zeros n) = 10 ^ n * digitsValue ds := by
  rw [digitsValue_eq_ofDigitChars, Nat.ofDigitChars_append, zeros,
    Nat.ofDigitChars_replicate_zero, digitsValue_eq_ofDigitChars]

theorem digitsValue_toDigits (n : Nat) : digitsValue (Nat.toDigits 10 n) = n := by
  rw [digitsValue_eq_ofDigitChars, Nat.ofDigitChars_ten_toDigits]

/-- Zeros at the end are dropped, and nothing else. -/
theorem exists_append_zeros (ds : List Char) : ∃ n, ds = dropZeros ds ++ zeros n := by
  refine ⟨(ds.reverse.takeWhile (· == '0')).length, ?_⟩
  have whole : ds.reverse.takeWhile (· == '0') =
      zeros (ds.reverse.takeWhile (· == '0')).length := by
    refine List.eq_replicate_of_mem fun c mem => ?_
    simpa using List.mem_takeWhile_imp mem
  have split := congrArg List.reverse
    (List.takeWhile_append_dropWhile (p := (· == '0')) (l := ds.reverse))
  rw [List.reverse_append, List.reverse_reverse, whole] at split
  rw [dropZeros]
  conv_lhs => rw [← split]
  simp [zeros]

theorem isDigit_of_mem_zeros {n : Nat} {c : Char} (h : c ∈ zeros n) : c.isDigit = true := by
  rw [List.eq_of_mem_replicate h]
  decide

/-! ## Numerals -/

/-- The characters are a numeral for a number: they are read as the value nearest to it. -/
def Denotes (cs : List Char) (q : ℚ) : Prop :=
  ∀ negative, ∃ digits exponent,
    readUnsigned? negative cs = some (ofDecimal negative digits exponent) ∧
      (digits : ℚ) * 10 ^ exponent = q

/-- A digit is no letter. -/
theorem toLower_of_isDigit {c : Char} (h : c.isDigit = true) : c.toLower = c := by
  refine dif_neg fun upper => ?_
  have above : 65 ≤ c.toNat := upper.1
  have within : c.toNat ≤ 57 := (Char.isDigit_iff_toNat.1 h).2
  omega

/-- No word begins with a digit. -/
theorem map_toLower_ne {cs word : List Char} (digit : ∀ c ∈ cs.head?, c.isDigit = true)
    (letter : word.head?.any (!·.isDigit) = true) : cs.map Char.toLower ≠ word := by
  rintro rfl
  cases cs with
  | nil => cases letter
  | cons c cs =>
    have digit := digit c rfl
    simp [toLower_of_isDigit digit, digit] at letter

/-- What begins with a digit is read as whole part, fraction and exponent. -/
theorem readUnsigned?_eq {whole fraction middle : List Char} (begins : whole ≠ [])
    (digits : ∀ c ∈ whole, c.isDigit = true) (digits' : ∀ c ∈ fraction, c.isDigit = true)
    (point : middle = '.' :: fraction ∨ middle = [] ∧ fraction = []) (negative : Bool)
    (tail : List Char) (ends : ∀ c ∈ tail.head?, c = 'e') :
    readUnsigned? negative (whole ++ (middle ++ tail)) =
      (if tail = [] then some 0 else readExponent? tail.tail).map fun e =>
        ofDecimal negative (digitsValue (whole ++ fraction)) (e - fraction.length) := by
  have first : ∀ c ∈ (whole ++ (middle ++ tail)).head?, c.isDigit = true := by
    obtain ⟨c, whole, rfl⟩ := List.exists_cons_of_ne_nil begins
    simpa using digits c List.mem_cons_self
  have behind : (middle ++ tail).takeWhile Char.isDigit = [] ∧
      (middle ++ tail).dropWhile Char.isDigit = middle ++ tail := by
    rcases point with rfl | ⟨rfl, -⟩
    · simp
    · cases tail with
      | nil => simp
      | cons c tail =>
        obtain rfl := ends c rfl
        simp
  have behind' : tail.takeWhile Char.isDigit = [] ∧ tail.dropWhile Char.isDigit = tail := by
    cases tail with
    | nil => simp
    | cons c tail =>
      obtain rfl := ends c rfl
      simp
  unfold readUnsigned?
  rw [if_neg (map_toLower_ne first (by decide)),
    if_neg (not_or.2 ⟨map_toLower_ne first (by decide), map_toLower_ne first (by decide)⟩)]
  simp only [List.takeWhile_append_of_pos digits, List.dropWhile_append_of_pos digits, behind,
    List.append_nil]
  rcases point with rfl | ⟨rfl, rfl⟩
  · simp only [List.cons_append, List.takeWhile_append_of_pos digits',
      List.dropWhile_append_of_pos digits', behind', List.append_nil, begins, false_and, if_false]
    cases tail with
    | nil => rfl
    | cons c tail =>
      obtain rfl := ends c rfl
      simp
  · cases tail with
    | nil => simp [begins]
    | cons c tail =>
      obtain rfl := ends c rfl
      simp [begins]

theorem denotes_point {whole fraction : List Char} (begins : whole ≠ [])
    (digits : ∀ c ∈ whole, c.isDigit = true) (digits' : ∀ c ∈ fraction, c.isDigit = true) :
    Denotes (whole ++ '.' :: fraction)
      (digitsValue (whole ++ fraction) * 10 ^ (-fraction.length : ℤ)) := by
  intro negative
  have read := readUnsigned?_eq begins digits digits' (.inl rfl) negative [] (by simp)
  rw [List.append_nil] at read
  exact ⟨_, _, read, by rw [zero_sub]⟩

section

variable {ds : List Char} {lead : ℤ}

/-- Zeros before the digits put them behind the point. -/
theorem denotes_zeros_append (digits : ∀ c ∈ ds, c.isDigit = true) (below : lead < 0) :
    Denotes ('0' :: '.' :: (zeros (-lead - 1).toNat ++ ds))
      (digitsValue ds * 10 ^ (lead + 1 - ds.length)) := by
  have zero : ∀ c ∈ ['0'], c.isDigit = true := by simp
  have further : ∀ c ∈ zeros (-lead - 1).toNat ++ ds, c.isDigit = true := by
    intro c mem
    exact (List.mem_append.1 mem).elim isDigit_of_mem_zeros (digits c)
  have numeral := denotes_point (by simp) zero further
  have value : digitsValue (['0'] ++ (zeros (-lead - 1).toNat ++ ds)) = digitsValue ds := by
    rw [show ['0'] = zeros 1 from rfl, digitsValue_zeros_append, digitsValue_zeros_append]
  have exponent : -((zeros (-lead - 1).toNat ++ ds).length : ℤ) = lead + 1 - ds.length := by
    simp only [zeros, List.length_append, List.length_replicate]
    omega
  rwa [value, exponent] at numeral

/-- Zeros behind the digits, and one behind the point. -/
theorem denotes_append_zeros (some : ds ≠ []) (digits : ∀ c ∈ ds, c.isDigit = true)
    (above : ¬ lead < 0) (short : ds.length ≤ lead.toNat + 1) :
    Denotes (ds ++ zeros (lead.toNat + 1 - ds.length) ++ '.' :: zeros 1)
      (digitsValue ds * 10 ^ (lead + 1 - ds.length)) := by
  have front : ∀ c ∈ ds ++ zeros (lead.toNat + 1 - ds.length), c.isDigit = true := by
    intro c mem
    exact (List.mem_append.1 mem).elim (digits c) isDigit_of_mem_zeros
  have numeral := denotes_point (by simp [some]) front fun c mem => isDigit_of_mem_zeros (n := 1) mem
  have value : digitsValue (ds ++ zeros (lead.toNat + 1 - ds.length) ++ zeros 1) =
      10 ^ (lead.toNat + 1 - ds.length + 1) * digitsValue ds := by
    rw [List.append_assoc, zeros, zeros, List.replicate_append_replicate, ← zeros,
      digitsValue_append_zeros]
  have exponent : (10 : ℚ) ^ (lead.toNat + 1 - ds.length + 1) * 10 ^ (-((zeros 1).length : ℤ)) =
      10 ^ (lead + 1 - ds.length) := by
    rw [← zpow_natCast, ← zpow_add₀ (by norm_num)]
    congr 1
    simp only [zeros, List.length_replicate]
    omega
  rwa [value, Nat.cast_mul, mul_right_comm, Nat.cast_pow, Nat.cast_ofNat, exponent,
    mul_comm] at numeral

/-- The point stands among the digits. -/
theorem denotes_take_drop (some : ds ≠ []) (digits : ∀ c ∈ ds, c.isDigit = true)
    (above : ¬ lead < 0) (long : lead.toNat + 1 < ds.length) :
    Denotes (ds.take (lead.toNat + 1) ++ '.' :: ds.drop (lead.toNat + 1))
      (digitsValue ds * 10 ^ (lead + 1 - ds.length)) := by
  have begins : ds.take (lead.toNat + 1) ≠ [] := by simp [some]
  have front : ∀ c ∈ ds.take (lead.toNat + 1), c.isDigit = true :=
    fun c mem => digits c (List.mem_of_mem_take mem)
  have further : ∀ c ∈ ds.drop (lead.toNat + 1), c.isDigit = true :=
    fun c mem => digits c (List.mem_of_mem_drop mem)
  have numeral := denotes_point begins front further
  have exponent : -((ds.drop (lead.toNat + 1)).length : ℤ) = lead + 1 - ds.length := by
    rw [List.length_drop]
    omega
  rwa [List.take_append_drop, exponent] at numeral

theorem denotes_positional (some : ds ≠ []) (digits : ∀ c ∈ ds, c.isDigit = true) (lead : ℤ) :
    Denotes (positional ds lead) (digitsValue ds * 10 ^ (lead + 1 - ds.length)) := by
  unfold positional
  by_cases below : lead < 0
  · rw [if_pos below]
    exact denotes_zeros_append digits below
  rw [if_neg below]
  dsimp only
  by_cases short : ds.length ≤ lead.toNat + 1
  · rw [List.take_of_length_le short, List.drop_eq_nil_of_le short, List.isEmpty_nil, if_pos rfl]
    exact denotes_append_zeros some digits below short
  · have none : lead.toNat + 1 - ds.length = 0 := by omega
    rw [List.isEmpty_eq_false_iff.2 (by simpa using short), if_neg (by decide), none, zeros,
      List.replicate_zero, List.append_nil]
    exact denotes_take_drop some digits below (not_le.1 short)

end

theorem readExponent?_eq (lead : ℤ) :
    readExponent? ((if lead < 0 then ['-'] else []) ++ lead.natAbs.repr.toList) = some lead := by
  have shown : lead.natAbs.repr.toList = Nat.toDigits 10 lead.natAbs := by
    rw [Nat.repr_eq_ofList_toDigits, String.toList_ofList]
  have all : (Nat.toDigits 10 lead.natAbs).all Char.isDigit = true :=
    List.all_eq_true.2 fun c mem => Nat.isDigit_of_mem_toDigits (by decide) (by decide) mem
  have nonempty : Nat.toDigits 10 lead.natAbs ≠ [] := Nat.toDigits_ne_nil
  rw [shown]
  split_ifs with negative
  · rw [List.singleton_append, readExponent?, if_pos ⟨nonempty, all⟩, digitsValue_toDigits]
    congr 1
    omega
  · obtain ⟨c, cs, split⟩ := List.exists_cons_of_ne_nil nonempty
    have digit : c.isDigit = true := List.all_eq_true.1 all c (by simp [split])
    have value : (digitsValue (c :: cs) : ℤ) = lead := by
      rw [← split, digitsValue_toDigits]
      omega
    rw [List.nil_append, split, readExponent?]
    · rw [if_pos ⟨List.cons_ne_nil c cs, split ▸ all⟩, value]
    · rintro _ ⟨⟩
      cases digit
    · rintro _ ⟨⟩
      cases digit

theorem denotes_scientific {ds : List Char} (some : ds ≠ [])
    (digits : ∀ c ∈ ds, c.isDigit = true) (lead : ℤ) :
    Denotes (scientific ds lead) (digitsValue ds * 10 ^ (lead + 1 - ds.length)) := by
  intro negative
  have begins : ds.take 1 ≠ [] := by simp [some]
  have point : (if (ds.drop 1).isEmpty then [] else '.' :: ds.drop 1) = '.' :: ds.drop 1 ∨
      (if (ds.drop 1).isEmpty then [] else '.' :: ds.drop 1) = [] ∧ ds.drop 1 = [] := by
    cases ds.drop 1 <;> simp
  have read := readUnsigned?_eq begins (fun c mem => digits c (List.mem_of_mem_take mem))
    (fun c mem => digits c (List.mem_of_mem_drop mem)) point negative
    ('e' :: ((if lead < 0 then ['-'] else []) ++ lead.natAbs.repr.toList)) (by simp)
  rw [if_neg (List.cons_ne_nil _ _), List.tail_cons, readExponent?_eq, Option.map_some,
    List.take_append_drop] at read
  refine ⟨digitsValue ds, lead - (ds.drop 1).length, ?_, ?_⟩
  · rw [← read, scientific]
    simp
  · have length := List.length_pos_iff.2 some
    rw [List.length_drop]
    congr 2
    omega

/-- A positive decimal is shown by a numeral for it. -/
theorem denotes_text {d : Decimal} (nonzero : d.digits ≠ 0) :
    Denotes d.text (d.digits * 10 ^ d.exponent) := by
  obtain ⟨n, split⟩ := exists_append_zeros (Nat.toDigits 10 d.digits)
  have value := digitsValue_toDigits d.digits
  have all : ∀ c ∈ Nat.toDigits 10 d.digits, c.isDigit = true :=
    fun c mem => Nat.isDigit_of_mem_toDigits (by decide) (by decide) mem
  have length := congrArg List.length split
  unfold Decimal.text
  dsimp only
  generalize dropZeros (Nat.toDigits 10 d.digits) = ds at *
  rw [split, digitsValue_append_zeros] at value
  have some : ds ≠ [] := by
    rintro rfl
    exact nonzero (by rw [← value]; rfl)
  have digits : ∀ c ∈ ds, c.isDigit = true := by
    intro c mem
    exact all c (by rw [split]; simp [mem])
  -- the zeros that were dropped are in the weight of the leading digit
  have same : (digitsValue ds : ℚ) *
      10 ^ (d.exponent + (Nat.toDigits 10 d.digits).length - 1 + 1 - ds.length) =
        d.digits * 10 ^ d.exponent := by
    have exponent : d.exponent + (Nat.toDigits 10 d.digits).length - 1 + 1 - ds.length =
        n + d.exponent := by
      rw [length, zeros, List.length_append, List.length_replicate]
      push_cast
      ring
    rw [exponent, zpow_add₀ (by norm_num), zpow_natCast, ← value]
    push_cast
    ring
  rw [← same]
  split_ifs
  · exact denotes_positional some digits _
  · exact denotes_scientific some digits _

/-! ## Reading what is shown -/

theorem ofDecimal_eq (negative : Bool) (digits : Nat) (exponent : ℤ) :
    ofDecimal negative digits exponent = { ofDecimal false digits exponent with negative } := by
  unfold ofDecimal ofFraction
  dsimp only
  split_ifs <;> rfl

/-- A numeral for the shortest decimal of a value is read as that value. -/
theorem readUnsigned?_shortest {x : Double} (finite : x.rank.val < infinityRank)
    (nonzero : x.rank.val ≠ 0) : readUnsigned? x.negative x.shortest.text = some x := by
  have nearest : IsNearest { x with negative := false }
      (x.shortest.digits * 10 ^ x.shortest.exponent) := isNearest_shortest rfl finite nonzero
  have some : x.shortest.digits ≠ 0 := by
    -- zero is nearer to zero
    intro none
    rw [none, Nat.cast_zero, zero_mul] at nearest
    have zero := nearest.unique (isNearest_zero le_rfl (by rw [mul_zero]; exact step_pos 0))
    exact nonzero (congrArg (fun y : Double => y.rank.val) zero)
  obtain ⟨digits, exponent, read, value⟩ := denotes_text some x.negative
  rw [← value] at nearest
  rw [read, ofDecimal_eq, ← nearest.unique (isNearest_ofDecimal digits exponent)]

/-- A sign is read before the numeral, and only there. -/
theorem read?_of_readUnsigned? {negative : Bool} {cs : List Char} {x : Double}
    (h : readUnsigned? negative cs = some x) :
    read? ((if negative then "-" else "") ++ String.ofList cs) = some x := by
  have noSign (b : Bool) (rest : List Char) :
      readUnsigned? b ('-' :: rest) = none ∧ readUnsigned? b ('+' :: rest) = none := by
    constructor <;> simp [readUnsigned?]
  cases negative with
  | true => simpa [read?] using h
  | false =>
    have chars : ((if false then "-" else "") ++ String.ofList cs).toList = cs := by simp
    unfold read?
    rw [chars]
    split
    · exact absurd ((noSign false _).1.symm.trans h) (by simp)
    · exact absurd ((noSign false _).2.symm.trans h) (by simp)
    · exact h

/-- **Every number is shown by a text that reads back to it.** -/
theorem read?_text {x : Double} (number : x.rank.val ≤ infinityRank) : read? x.text = some x := by
  have same {rank : Nat} (h : x.rank.val = rank) (le : rank ≤ infinityRank) :
      ofRank x.negative rank = x := by
    obtain ⟨negative, r⟩ := x
    exact congrArg (Double.mk negative) (Fin.ext ((Nat.min_eq_left le).trans h.symm))
  unfold text
  dsimp only
  rw [if_neg (not_lt.2 number)]
  by_cases infinite : x.rank.val = infinityRank
  · have word : readUnsigned? x.negative ['i', 'n', 'f'] = some (infinity x.negative) := rfl
    rw [if_pos infinite, ← same infinite le_rfl]
    exact read?_of_readUnsigned? word
  by_cases zero : x.rank.val = 0
  · have numeral : readUnsigned? x.negative ['0', '.', '0'] = some (ofRank x.negative 0) := rfl
    rw [if_neg infinite, if_pos zero, ← same zero (Nat.zero_le _)]
    exact read?_of_readUnsigned? numeral
  · rw [if_neg infinite, if_neg zero]
    exact read?_of_readUnsigned? (readUnsigned?_shortest (lt_of_le_of_ne number infinite) zero)

end OnePass.Double
