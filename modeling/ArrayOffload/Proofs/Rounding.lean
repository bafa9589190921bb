import ArrayOffload.Number.Decimal
import Mathlib.Algebra.Order.Field.Power
import Mathlib.Data.Int.Log
import Mathlib.Data.Rat.Floor
import Mathlib.Tactic.FieldSimp
import Mathlib.Tactic.Linarith
import Mathlib.Tactic.Positivity

/-!
# Codes and the numbers they stand for

Rounding works on pairs of natural numbers. What it gives depends on their quotient only, so its
results are stated about rational numbers here.

* `Format.value`: the number that a finite code stands for;
* `Format.code_congr`: equal quotients have equal codes;
* `Format.nearest_value`: the number of a code is rounded to that code;
* `Format.nearest_mono`: larger numbers do not have smaller codes;
* `Format.isIntegral_nearest`: a whole number is rounded to a whole number.
-/

namespace ArrayOffload.Number

/-! ## Scaling and rounding -/

theorem scaleRatio_pos {b : Nat} (a : Nat) (hb : 0 < b) (e : Int) : 0 < (scaleRatio a b e).2 := by
  unfold scaleRatio
  split
  · exact hb
  · exact Nat.mul_pos hb (Nat.pow_pos (by decide))

theorem scaleRatio_eq (a b : Nat) (e : Int) :
    ((scaleRatio a b e).1 : ℚ) / (scaleRatio a b e).2 = a / b * 2 ^ e := by
  unfold scaleRatio
  split
  · next he =>
    obtain ⟨n, rfl⟩ := Int.eq_ofNat_of_zero_le he
    simp only [Int.toNat_natCast, Nat.pow_eq, Nat.cast_mul, Nat.cast_pow, Nat.cast_ofNat,
      zpow_natCast]
    ring
  · next he =>
    obtain ⟨n, rfl⟩ : ∃ n : Nat, e = -(n : Int) := ⟨(-e).toNat, by omega⟩
    simp only [neg_neg, Int.toNat_natCast, Nat.pow_eq, Nat.cast_mul, Nat.cast_pow, Nat.cast_ofNat,
      zpow_neg, zpow_natCast]
    ring

/-- `ratioLog2` is the logarithm of the quotient. -/
theorem ratioLog2_eq {num den : Nat} (hnum : num ≠ 0) (hden : den ≠ 0) :
    ratioLog2 num den = Int.log 2 ((num : ℚ) / den) := by
  have hn : (0 : ℚ) < num := by exact_mod_cast Nat.pos_of_ne_zero hnum
  have hd : (0 : ℚ) < den := by exact_mod_cast Nat.pos_of_ne_zero hden
  have hq : (0 : ℚ) < num / den := div_pos hn hd
  -- the logarithms of both numbers leave room for one more power of two
  have hlow : (2 : ℚ) ^ ((num.log2 : Int) - den.log2 - 1) < num / den := by
    have h1 : (2 : ℚ) ^ num.log2 ≤ num := by exact_mod_cast Nat.log2_self_le hnum
    have h2 : (den : ℚ) < 2 ^ (den.log2 + 1) := by exact_mod_cast Nat.lt_log2_self
    rw [lt_div_iff₀ hd, zpow_sub₀ two_ne_zero, zpow_sub₀ two_ne_zero, zpow_natCast, zpow_natCast,
      zpow_one, div_div, div_mul_eq_mul_div, div_lt_iff₀ (by positivity), ← pow_succ]
    exact mul_lt_mul_of_le_of_lt_of_pos_of_nonneg h1 h2 (by positivity) (by positivity)
  have hhigh : (num : ℚ) / den < 2 ^ ((num.log2 : Int) - den.log2 + 1) := by
    have h1 : (num : ℚ) < 2 ^ (num.log2 + 1) := by exact_mod_cast Nat.lt_log2_self
    have h2 : (2 : ℚ) ^ den.log2 ≤ den := by exact_mod_cast Nat.log2_self_le hden
    rw [div_lt_iff₀ hd, show (num.log2 : Int) - den.log2 + 1 = (num.log2 + 1 : Nat) - den.log2 by
      push_cast; ring, zpow_sub₀ two_ne_zero, zpow_natCast, zpow_natCast, div_mul_eq_mul_div,
      lt_div_iff₀ (by positivity)]
    exact mul_lt_mul_of_lt_of_le_of_nonneg_of_pos h1 h2 hn.le (by positivity)
  have hscaled : (scaleRatio num den (-((num.log2 : Int) - den.log2))).2 ≤
      (scaleRatio num den (-((num.log2 : Int) - den.log2))).1 ↔
      (2 : ℚ) ^ ((num.log2 : Int) - den.log2) ≤ num / den := by
    have hpos := scaleRatio_pos num (Nat.pos_of_ne_zero hden) (-((num.log2 : Int) - den.log2))
    rw [← @Nat.cast_le ℚ, ← one_le_div (Nat.cast_pos.mpr hpos), scaleRatio_eq, zpow_neg,
      ← div_eq_mul_inv, one_le_div (zpow_pos two_pos _)]
  have le_log : ∀ e : Int, (2 : ℚ) ^ e ≤ num / den ↔ e ≤ Int.log 2 ((num : ℚ) / den) :=
    fun e => by exact_mod_cast Int.zpow_le_iff_le_log (by decide) hq
  have log_lt : ∀ e : Int, (num : ℚ) / den < 2 ^ e ↔ Int.log 2 ((num : ℚ) / den) < e :=
    fun e => by exact_mod_cast Int.lt_zpow_iff_log_lt (by decide) hq
  have below := (le_log _).mp hlow.le
  have above := (log_lt _).mp hhigh
  simp only [ratioLog2, hscaled, le_log]
  split <;> omega

theorem le_roundQuotient {num den k : Nat} (hden : 0 < den) (h : k * den ≤ num) :
    k ≤ roundQuotient num den := by
  have : k ≤ num / den := (Nat.le_div_iff_mul_le hden).mpr h
  simp only [roundQuotient]
  split_ifs <;> omega

theorem roundQuotient_le {num den k : Nat} (hden : 0 < den) (h : num < k * den) :
    roundQuotient num den ≤ k := by
  have : num / den < k := (Nat.div_lt_iff_lt_mul hden).mpr h
  simp only [roundQuotient]
  split_ifs <;> omega

theorem roundQuotient_eq_zero {num den : Nat} (h : 2 * num < den) : roundQuotient num den = 0 := by
  have hlt : num < den := by omega
  simp [roundQuotient, Nat.div_eq_of_lt hlt, Nat.mod_eq_of_lt hlt, h]

theorem roundQuotient_scale {c : Nat} (num den : Nat) (hc : 0 < c) :
    roundQuotient (num * c) (den * c) = roundQuotient num den := by
  have below : 2 * (num % den * c) < den * c ↔ 2 * (num % den) < den := by
    rw [← Nat.mul_assoc]
    exact Nat.mul_lt_mul_right hc
  have above : den * c < 2 * (num % den * c) ↔ den < 2 * (num % den) := by
    rw [← Nat.mul_assoc]
    exact Nat.mul_lt_mul_right hc
  simp only [roundQuotient, Nat.mul_mod_mul_right, Nat.mul_div_mul_right _ _ hc, below, above]

/-- Equal quotients are rounded alike. -/
theorem roundQuotient_congr {a b c d : Nat} (hb : 0 < b) (hd : 0 < d)
    (h : (a : ℚ) / b = (c : ℚ) / d) : roundQuotient a b = roundQuotient c d := by
  have hcross : a * d = c * b := by
    rw [div_eq_div_iff (by exact_mod_cast hb.ne') (by exact_mod_cast hd.ne')] at h
    exact_mod_cast h
  rw [← roundQuotient_scale a b hd, hcross, Nat.mul_comm b d, roundQuotient_scale c d hb]

theorem roundQuotient_le_roundQuotient {a c : Nat} (den : Nat) (h : a ≤ c) :
    roundQuotient a den ≤ roundQuotient c den := by
  have hdiv : a / den ≤ c / den := Nat.div_le_div_right h
  simp only [roundQuotient]
  rcases hdiv.lt_or_eq with hlt | heq
  · split_ifs <;> omega
  · have ha := Nat.div_add_mod a den
    have hc := Nat.div_add_mod c den
    rw [heq] at ha ⊢
    split_ifs <;> omega

theorem roundQuotient_mono {a b c d : Nat} (hb : 0 < b) (hd : 0 < d)
    (h : (a : ℚ) / b ≤ (c : ℚ) / d) : roundQuotient a b ≤ roundQuotient c d := by
  have hcross : a * d ≤ c * b := by
    rw [div_le_div_iff₀ (by exact_mod_cast hb) (by exact_mod_cast hd)] at h
    exact_mod_cast h
  rw [← roundQuotient_scale a b hd, ← roundQuotient_scale c d hb, Nat.mul_comm d b]
  exact roundQuotient_le_roundQuotient _ hcross

theorem roundQuotient_eq {num den k : Nat} (hden : 0 < den) (h : (num : ℚ) / den = k) :
    roundQuotient num den = k := by
  rw [roundQuotient_congr hden Nat.one_pos (h.trans (by simp) : _ = (k : ℚ) / (1 : Nat))]
  simp [roundQuotient, Nat.mod_one]

namespace Format

variable {fmt : Format}

/-! ## Rounding to a format -/

/-- The exponent of the last bit that codes near `q` have. -/
def unitOf (fmt : Format) (q : ℚ) : Int :=
  max fmt.minExponent (Int.log 2 q - (fmt.precision - 1))

theorem code_eq {num den : Nat} (hnum : num ≠ 0) (hden : den ≠ 0) :
    fmt.code num den = min fmt.infinity
      (roundQuotient (scaleRatio num den (-fmt.unitOf (num / den))).1
          (scaleRatio num den (-fmt.unitOf (num / den))).2 +
        (fmt.unitOf (num / den) - fmt.minExponent).toNat * fmt.span) := by
  simp only [code, if_neg hnum, ratioLog2_eq hnum hden, unitOf]

/-- Codes depend on the quotient only. -/
theorem code_congr {a b c d : Nat} (hb : 0 < b) (hd : 0 < d) (h : (a : ℚ) / b = (c : ℚ) / d) :
    fmt.code a b = fmt.code c d := by
  have hbq : (b : ℚ) ≠ 0 := by exact_mod_cast hb.ne'
  have hdq : (d : ℚ) ≠ 0 := by exact_mod_cast hd.ne'
  have hzero : a = 0 ↔ c = 0 := by
    have := congrArg (· = 0) h
    simpa [hbq, hdq] using this
  by_cases ha : a = 0
  · simp [code, ha, hzero.mp ha]
  · rw [code_eq ha hb.ne', code_eq (mt hzero.mpr ha) hd.ne', h]
    have := roundQuotient_congr (scaleRatio_pos a hb (-fmt.unitOf (c / d)))
      (scaleRatio_pos c hd (-fmt.unitOf (c / d))) (by rw [scaleRatio_eq, scaleRatio_eq, h])
    rw [this]

/-- The code nearest to a number that is not negative. -/
def nearest (fmt : Format) (q : ℚ) : Nat := fmt.code q.num.natAbs q.den

theorem natAbs_num_div_den {q : ℚ} (hq : 0 ≤ q) : (q.num.natAbs : ℚ) / q.den = q := by
  rw [← Int.cast_natCast, Int.natAbs_of_nonneg (Rat.num_nonneg.mpr hq), Rat.num_div_den]

theorem code_eq_nearest {den : Nat} (num : Nat) (hden : 0 < den) :
    fmt.code num den = fmt.nearest (num / den) :=
  code_congr hden (Rat.den_pos _) (natAbs_num_div_den (by positivity)).symm

/-- The number that a finite code stands for. -/
def value (fmt : Format) (code : Nat) : ℚ := (fmt.parts code).1 * 2 ^ (fmt.parts code).2

theorem ratio_pos (code : Nat) : 0 < (fmt.ratio code).2 := scaleRatio_pos _ Nat.one_pos _

theorem ratio_eq (code : Nat) : ((fmt.ratio code).1 : ℚ) / (fmt.ratio code).2 = fmt.value code := by
  simp [ratio, scaleRatio_eq, value]

theorem span_pos : 0 < fmt.span := Nat.pow_pos (by decide)

theorem parts_of_lt {code : Nat} (h : code < fmt.span) :
    fmt.parts code = (code, fmt.minExponent) := by
  simp [parts, Nat.div_eq_of_lt h, Nat.mod_eq_of_lt h]

theorem parts_add {fraction : Nat} (k : Nat) (h : fraction < fmt.span) :
    fmt.parts (fraction + (k + 1) * fmt.span) = (fraction + fmt.span, fmt.minExponent + k) := by
  have hfield : (fraction + (k + 1) * fmt.span) / fmt.span = k + 1 := by
    rw [Nat.add_mul_div_right _ _ span_pos, Nat.div_eq_of_lt h, Nat.zero_add]
  simp only [parts, hfield, Nat.add_mul_mod_self_right, Nat.mod_eq_of_lt h]
  simp only [Nat.add_eq_zero_iff, one_ne_zero, and_false, if_false, Prod.mk.injEq, true_and]
  push_cast
  ring

/-- A significand that lies `k` exponents above the least one. The last of them is the first that
lies `k + 1` above it. -/
theorem value_add {significand k : Nat} (high : significand ≤ 2 * fmt.span)
    (low : k = 0 ∨ fmt.span ≤ significand) :
    fmt.value (significand + k * fmt.span) = significand * 2 ^ (fmt.minExponent + k) := by
  rcases Nat.lt_or_ge significand fmt.span with hsmall | hlarge
  · obtain rfl : k = 0 := by omega
    simp [value, parts_of_lt hsmall]
  obtain ⟨fraction, rfl⟩ := Nat.exists_eq_add_of_le' hlarge
  rcases Nat.lt_or_ge fraction fmt.span with hlt | hge
  · rw [show fraction + fmt.span + k * fmt.span = fraction + (k + 1) * fmt.span by ring, value,
      parts_add k hlt]
  · -- the largest significand is written with the next exponent
    obtain rfl : fraction = fmt.span := by omega
    have hnext : fmt.span + fmt.span + k * fmt.span = 0 + (k + 1 + 1) * fmt.span := by ring
    rw [hnext, value, parts_add (k + 1) span_pos]
    push_cast
    rw [← add_assoc, zpow_add_one₀ two_ne_zero]
    ring

/-- Every code is a significand at some exponent. -/
theorem exists_significand (code : Nat) : ∃ significand k : Nat, significand < 2 * fmt.span ∧
    (k = 0 ∨ fmt.span ≤ significand) ∧ code = significand + k * fmt.span := by
  rcases Nat.lt_or_ge code fmt.span with hsmall | hlarge
  · exact ⟨code, 0, by omega, .inl rfl, by simp⟩
  · obtain ⟨rest, rfl⟩ := Nat.exists_eq_add_of_le' hlarge
    refine ⟨rest % fmt.span + fmt.span, rest / fmt.span, ?_, .inr (by omega), ?_⟩
    · have := Nat.mod_lt rest fmt.span_pos
      omega
    · have := Nat.mod_add_div' rest fmt.span
      omega

/-! ## Rounding and values -/

theorem span_eq (hp : 0 < fmt.precision) : (fmt.span : ℚ) = 2 ^ ((fmt.precision : Int) - 1) := by
  obtain ⟨n, hn⟩ := Nat.exists_eq_succ_of_ne_zero hp.ne'
  simp [span, hn]

/-- Measured in its unit, a number has a significand's size. -/
theorem scaled_bounds (hp : 0 < fmt.precision) {q : ℚ} (hq : 0 < q) :
    q * 2 ^ (-fmt.unitOf q) < 2 * fmt.span ∧
      (fmt.unitOf q = fmt.minExponent ∨ (fmt.span : ℚ) ≤ q * 2 ^ (-fmt.unitOf q)) := by
  have hhigh := Int.lt_zpow_succ_log_self (by decide : 1 < 2) q
  have hlow := Int.zpow_log_le_self (by decide : 1 < 2) hq
  push_cast at hhigh hlow
  rw [span_eq hp, ← zpow_one_add₀ two_ne_zero, zpow_neg, ← div_eq_mul_inv,
    div_lt_iff₀ (zpow_pos two_pos _), le_div_iff₀ (zpow_pos two_pos _), ← zpow_add₀ two_ne_zero,
    ← zpow_add₀ two_ne_zero]
  constructor
  · refine hhigh.trans_le (zpow_le_zpow_right₀ one_le_two ?_)
    have : Int.log 2 q - (fmt.precision - 1) ≤ fmt.unitOf q := le_max_right _ _
    omega
  · rcases max_choice fmt.minExponent (Int.log 2 q - (fmt.precision - 1)) with h | h
    · exact .inl h
    · refine .inr (le_trans (zpow_le_zpow_right₀ one_le_two ?_) hlow)
      have : fmt.unitOf q = Int.log 2 q - (fmt.precision - 1) := h
      omega

/-- What rounding does: it measures the number in its unit and rounds the measure. -/
theorem exists_nearest (hp : 0 < fmt.precision) {q : ℚ} (hq : 0 < q) :
    ∃ significand k a b : Nat, significand ≤ 2 * fmt.span ∧ (k = 0 ∨ fmt.span ≤ significand) ∧
      fmt.unitOf q = fmt.minExponent + k ∧ 0 < b ∧ (a : ℚ) / b = q * 2 ^ (-fmt.unitOf q) ∧
      significand = roundQuotient a b ∧
      fmt.nearest q = min fmt.infinity (significand + k * fmt.span) := by
  obtain ⟨hhigh, hlow⟩ := scaled_bounds hp hq
  have hnum : q.num.natAbs ≠ 0 := Int.natAbs_ne_zero.mpr (Rat.num_pos.mpr hq).ne'
  have hcode := fmt.code_eq hnum q.den_pos.ne'
  rw [natAbs_num_div_den hq.le] at hcode
  have hb := scaleRatio_pos q.num.natAbs q.den_pos (-fmt.unitOf q)
  have hbq : (0 : ℚ) < (scaleRatio q.num.natAbs q.den (-fmt.unitOf q)).2 := by exact_mod_cast hb
  have hscaled := scaleRatio_eq q.num.natAbs q.den (-fmt.unitOf q)
  rw [natAbs_num_div_den hq.le] at hscaled
  rw [← hscaled] at hhigh hlow
  refine ⟨_, _, _, _, ?_, ?_, ?_, hb, hscaled, rfl, hcode⟩
  · rw [div_lt_iff₀ hbq] at hhigh
    exact roundQuotient_le hb (by exact_mod_cast hhigh)
  · rcases hlow with h | h
    · exact .inl (by omega)
    · rw [le_div_iff₀ hbq] at h
      exact .inr (le_roundQuotient hb (by exact_mod_cast h))
  · have : fmt.minExponent ≤ fmt.unitOf q := le_max_left _ _
    omega

@[simp] theorem nearest_zero : fmt.nearest 0 = 0 := by simp [nearest, code]

theorem unitOf_mono {q r : ℚ} (hq : 0 < q) (h : q ≤ r) : fmt.unitOf q ≤ fmt.unitOf r :=
  max_le_max_left _ (Int.sub_le_sub_right (Int.log_mono_right hq h) _)

/-- Larger numbers do not have smaller codes. -/
theorem nearest_mono (hp : 0 < fmt.precision) {q r : ℚ} (hq : 0 ≤ q) (h : q ≤ r) :
    fmt.nearest q ≤ fmt.nearest r := by
  rcases hq.eq_or_lt with rfl | hq
  · simp
  obtain ⟨m, j, a, b, mhigh, -, munit, hb, hab, hm, hnearest⟩ := exists_nearest hp hq
  obtain ⟨n, k, c, d, -, nlow, nunit, hd, hcd, hn, hnearest'⟩ := exists_nearest hp (hq.trans_le h)
  rw [hnearest, hnearest']
  refine min_le_min_left _ ?_
  have hunit : fmt.unitOf q ≤ fmt.unitOf r := unitOf_mono hq h
  rcases (show j ≤ k by omega).lt_or_eq with hlt | rfl
  · -- the larger number has a larger unit, and at least the least significand of that unit
    have hspan : fmt.span ≤ n := nlow.resolve_left (by omega)
    calc m + j * fmt.span ≤ fmt.span + (j + 1) * fmt.span := by
          rw [Nat.succ_mul]
          omega
      _ ≤ n + k * fmt.span := Nat.add_le_add hspan (Nat.mul_le_mul_right _ hlt)
  · have hsame : fmt.unitOf q = fmt.unitOf r := munit.trans nunit.symm
    have hquotient : (a : ℚ) / b ≤ (c : ℚ) / d := by
      rw [hab, hcd, hsame]
      exact mul_le_mul_of_nonneg_right h (zpow_nonneg two_pos.le _)
    rw [hm, hn]
    exact Nat.add_le_add_right (roundQuotient_mono hb hd hquotient) _

/-- A bound that is no smaller does not change how a number is rounded. -/
theorem nearest_min (hp : 0 < fmt.precision) {n m bound : Nat} (hbound : n ≤ bound)
    (h : fmt.nearest m = fmt.nearest n) : fmt.nearest (min bound m : Nat) = fmt.nearest n := by
  rcases le_total m bound with hle | hle
  · rw [min_eq_right hle, h]
  · rw [min_eq_left hle]
    refine le_antisymm (le_of_le_of_eq ?_ h) ?_
    · exact nearest_mono hp (Nat.cast_nonneg _) (Nat.cast_le.mpr hle)
    · exact nearest_mono hp (Nat.cast_nonneg _) (Nat.cast_le.mpr hbound)

theorem unitOf_eq (hp : 0 < fmt.precision) {significand k : Nat} (hpos : 0 < significand)
    (high : significand < 2 * fmt.span) (low : k = 0 ∨ fmt.span ≤ significand) :
    fmt.unitOf (significand * 2 ^ (fmt.minExponent + k)) = fmt.minExponent + k := by
  have hs : (0 : ℚ) < significand := by exact_mod_cast hpos
  have above : ∀ e : Int, Int.log 2 ((significand : ℚ) * 2 ^ e) < 1 + (fmt.precision - 1) + e := by
    intro e
    rw [← Int.lt_zpow_iff_log_lt (by decide) (by positivity)]
    push_cast
    rw [zpow_add₀ two_ne_zero, zpow_one_add₀ two_ne_zero, ← span_eq hp]
    gcongr
    exact_mod_cast high
  have below : ∀ e : Int, fmt.span ≤ significand →
      (fmt.precision : Int) - 1 + e ≤ Int.log 2 ((significand : ℚ) * 2 ^ e) := by
    intro e low
    rw [← Int.zpow_le_iff_le_log (by decide) (by positivity)]
    push_cast
    rw [zpow_add₀ two_ne_zero, ← span_eq hp]
    gcongr
  -- at the least exponent the lower bound may fail, but then the unit is the least one anyway
  have := above (fmt.minExponent + k)
  simp only [unitOf]
  rcases low with rfl | low
  · push_cast at this ⊢
    omega
  · have := below (fmt.minExponent + k) low
    omega

/-- The number of a code is rounded to that code. -/
theorem nearest_value (hp : 0 < fmt.precision) {code : Nat} (h : code ≤ fmt.infinity) :
    fmt.nearest (fmt.value code) = code := by
  obtain ⟨significand, k, high, low, rfl⟩ := fmt.exists_significand code
  rw [value_add high.le low]
  rcases Nat.eq_zero_or_pos significand with rfl | hpos
  · obtain rfl : k = 0 := low.resolve_right (not_le.mpr span_pos)
    simp
  have hs : (0 : ℚ) < significand := by exact_mod_cast hpos
  obtain ⟨found, k', a, b, _, _, hunit, hb, hab, hfound, hnearest⟩ :=
    exists_nearest hp (by positivity : (0 : ℚ) < significand * 2 ^ (fmt.minExponent + (k : Int)))
  rw [unitOf_eq hp hpos high low] at hunit hab
  obtain rfl : k = k' := by omega
  -- the number is a whole number of its units, and that number is the significand
  rw [mul_assoc, ← zpow_add₀ two_ne_zero, add_neg_cancel, zpow_zero, mul_one] at hab
  rw [hnearest, hfound, roundQuotient_eq hb hab, min_eq_right h]

theorem isIntegral_iff {code : Nat} :
    fmt.isIntegral code = true ↔ code < fmt.infinity ∧ ∃ n : Nat, fmt.value code = n := by
  have hpos := fmt.ratio_pos code
  have hq : ((fmt.ratio code).2 : ℚ) ≠ 0 := by exact_mod_cast hpos.ne'
  simp only [isIntegral, Bool.and_eq_true, decide_eq_true_eq, ← ratio_eq, div_eq_iff hq,
    ← Nat.dvd_iff_mod_eq_zero]
  refine and_congr_right fun _ => ⟨fun ⟨n, hn⟩ => ⟨n, ?_⟩, fun ⟨n, hn⟩ => ⟨n, ?_⟩⟩
  · rw [hn]
    push_cast
    ring
  · rw [Nat.mul_comm]
    exact_mod_cast hn

/-- A whole number is rounded to a whole number, or out of range. -/
theorem isIntegral_nearest (hp : 0 < fmt.precision) (n : Nat)
    (h : fmt.nearest n < fmt.infinity) : fmt.isIntegral (fmt.nearest n) = true := by
  rw [isIntegral_iff]
  refine ⟨h, ?_⟩
  rcases Nat.eq_zero_or_pos n with rfl | hpos
  · exact ⟨0, by simp [value, parts_of_lt span_pos]⟩
  obtain ⟨significand, k, a, b, high, low, hunit, hb, hab, rfl, hnearest⟩ :=
    exists_nearest hp (by exact_mod_cast hpos : (0 : ℚ) < n)
  have hcode : fmt.nearest n = roundQuotient a b + k * fmt.span := by omega
  rw [hcode, value_add high low, ← hunit]
  rcases le_total 0 (fmt.unitOf n) with hup | hdown
  · obtain ⟨e, he⟩ := Int.eq_ofNat_of_zero_le hup
    exact ⟨roundQuotient a b * 2 ^ e, by rw [he]; push_cast; rfl⟩
  · -- the unit divides one, so nothing is rounded
    obtain ⟨e, he⟩ := Int.eq_ofNat_of_zero_le (Int.neg_nonneg_of_nonpos hdown)
    refine ⟨n, ?_⟩
    rw [he, show (n : ℚ) * 2 ^ (e : Int) = ((n * 2 ^ e : Nat) : ℚ) by push_cast; rfl] at hab
    rw [roundQuotient_eq hb hab, show fmt.unitOf n = -(e : Int) by omega]
    push_cast
    rw [zpow_neg, zpow_natCast, mul_assoc, mul_inv_cancel₀ (by positivity), mul_one]

end Format

/-! ## Doubles -/

theorem binary64_precision : 0 < binary64.precision := by decide

theorem binary64_nearest_of_le {q : ℚ} (hq : 0 < q) (h : 1024 ≤ Int.log 2 q) :
    binary64.nearest q = binary64.infinity := by
  obtain ⟨significand, k, _, _, _, low, hunit, _, _, _, hnearest⟩ :=
    Format.exists_nearest binary64_precision hq
  have hk : 2046 ≤ k := by
    simp only [Format.unitOf, binary64] at hunit
    omega
  have hinfinity : binary64.infinity = binary64.span + 2046 * binary64.span := by decide
  have hlarge : binary64.span ≤ significand := low.resolve_left (by omega)
  rw [hnearest, min_eq_left]
  rw [hinfinity]
  exact Nat.add_le_add hlarge (Nat.mul_le_mul_right _ hk)

/-- Rounding does not overflow below half of the range. -/
theorem binary64_nearest_lt_infinity {q : ℚ} (hq : 0 < q) (h : Int.log 2 q < 1023) :
    binary64.nearest q < binary64.infinity := by
  obtain ⟨significand, k, _, _, hhigh, _, hunit, _, _, _, hnearest⟩ :=
    Format.exists_nearest binary64_precision hq
  have hk : k ≤ 2044 := by
    have : binary64.minExponent = -1074 := rfl
    simp only [Format.unitOf, binary64] at hunit
    omega
  have hinfinity : 2 * binary64.span + 2044 * binary64.span < binary64.infinity := by decide
  rw [hnearest]
  refine lt_of_le_of_lt (min_le_right _ _) (lt_of_le_of_lt ?_ hinfinity)
  exact Nat.add_le_add hhigh (Nat.mul_le_mul_right _ hk)

theorem binary64_nearest_of_lt {q : ℚ} (hq : 0 < q) (h : Int.log 2 q < -1075) :
    binary64.nearest q = 0 := by
  obtain ⟨significand, k, a, b, _, _, hunit, hb, hab, rfl, hnearest⟩ :=
    Format.exists_nearest binary64_precision hq
  have hmin : binary64.unitOf q = -1074 := by
    simp only [Format.unitOf, binary64]
    omega
  have hk : k = 0 := by
    have : binary64.minExponent = -1074 := rfl
    omega
  have hround : roundQuotient a b = 0 := by
    refine roundQuotient_eq_zero ?_
    have hbq : (0 : ℚ) < b := by exact_mod_cast hb
    have hhalf : q * 2 ^ (-binary64.unitOf q) < 2 ^ (-1 : Int) := by
      have hlt := (Int.lt_zpow_iff_log_lt (by decide : 1 < 2) hq).mpr h
      rw [zpow_neg, ← div_eq_mul_inv, div_lt_iff₀ (zpow_pos two_pos _), ← zpow_add₀ two_ne_zero,
        hmin]
      exact_mod_cast hlt
    rw [← hab, div_lt_iff₀ hbq, zpow_neg_one] at hhalf
    have : 2 * (a : ℚ) < b := by linarith
    exact_mod_cast this
  rw [hnearest, hround, hk]
  simp

end ArrayOffload.Number
