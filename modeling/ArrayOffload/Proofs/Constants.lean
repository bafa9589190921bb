import ArrayOffload.Proofs.Rounding
import ArrayOffload.Scalar
import Mathlib.Algebra.Order.Ring.Cast

/-!
# Written constants are read back

Reading a decimal rounds its exact value once. The digits that are written have the constant's own
value, or one that is rounded to it, so reading them gives the constant again with every bit.

* `decimalCode_eq`: what reading a decimal means;
* `nearest_shortest`: the shortest digits are rounded to the code they were made for;
* `Scalar.read?_text`: a finite constant is read back from its text, which has digits on both sides
  of a point.
-/

namespace ArrayOffload

namespace Number

/-! ## The value of a decimal -/

/-- The exact value of a decimal. -/
def decimalValue (number : Nat × Int) : ℚ := number.1 * 10 ^ number.2

theorem decimalRatio_pos (coefficient : Nat) (exponent : Int) :
    0 < (decimalRatio coefficient exponent).2 := by
  unfold decimalRatio
  split
  · exact Nat.one_pos
  · exact Nat.pow_pos (by decide)

theorem decimalRatio_eq (coefficient : Nat) (exponent : Int) :
    ((decimalRatio coefficient exponent).1 : ℚ) / (decimalRatio coefficient exponent).2 =
      decimalValue (coefficient, exponent) := by
  unfold decimalRatio decimalValue
  split
  · next he =>
    obtain ⟨n, rfl⟩ := Int.eq_ofNat_of_zero_le he
    simp
  · next he =>
    obtain ⟨n, rfl⟩ : ∃ n : Nat, exponent = -(n : Int) := ⟨(-exponent).toNat, by omega⟩
    simp [div_eq_mul_inv]

theorem digitCount_bounds {n : Nat} (hn : n ≠ 0) :
    10 ^ (digitCount n - 1) ≤ n ∧ n < 10 ^ digitCount n := by
  have hpos : 0 < digitCount n := Nat.length_toDigits_pos
  have hiff : ∀ k, 0 < k → (digitCount n ≤ k ↔ n < 10 ^ k) :=
    fun k hk => Nat.length_toDigits_le_iff (by decide) hk
  refine ⟨?_, (hiff _ hpos).mp le_rfl⟩
  rcases Nat.eq_zero_or_pos (digitCount n - 1) with h | h
  · rw [h]
    omega
  · by_contra hlt
    have := (hiff _ h).mpr (by omega)
    omega

/-- A decimal lies between the powers of ten that its number of digits names. -/
theorem decimalValue_bounds {coefficient : Nat} (h : coefficient ≠ 0) (exponent : Int) :
    10 ^ ((digitCount coefficient : Int) + exponent - 1) ≤ decimalValue (coefficient, exponent) ∧
      decimalValue (coefficient, exponent) < 10 ^ ((digitCount coefficient : Int) + exponent) := by
  obtain ⟨hlow, hhigh⟩ := digitCount_bounds h
  have hpos : 0 < digitCount coefficient := Nat.length_toDigits_pos
  have hten : (10 : ℚ) ≠ 0 := by norm_num
  constructor
  · rw [show (digitCount coefficient : Int) + exponent - 1 =
      ((digitCount coefficient - 1 : Nat) : Int) + exponent by omega, zpow_add₀ hten, zpow_natCast]
    unfold decimalValue
    gcongr
    exact_mod_cast hlow
  · rw [zpow_add₀ hten, zpow_natCast]
    unfold decimalValue
    gcongr
    exact_mod_cast hhigh

theorem two_zpow_le_ten_zpow {e : Int} (he : 0 ≤ e) : (2 : ℚ) ^ (3 * e) ≤ 10 ^ e := by
  rw [zpow_mul]
  exact zpow_le_zpow_left₀ he (by norm_num) (by norm_num)

theorem ten_zpow_le_two_zpow {e : Int} (he : e ≤ 0) : (10 : ℚ) ^ e ≤ 2 ^ (3 * e) := by
  have h := two_zpow_le_ten_zpow (Int.neg_nonneg_of_nonpos he)
  rw [mul_neg, zpow_neg, zpow_neg] at h
  exact (inv_le_inv₀ (by positivity) (by positivity)).mp h

/-- Reading rounds the exact value, also where it looks at the size alone. -/
theorem decimalCode_eq (coefficient : Nat) (exponent : Int) :
    decimalCode binary64 coefficient exponent =
      binary64.nearest (decimalValue (coefficient, exponent)) := by
  unfold decimalCode
  split
  · next h => simp [h, decimalValue]
  next h =>
  obtain ⟨hlow, hhigh⟩ := decimalValue_bounds h exponent
  have hq : 0 < decimalValue (coefficient, exponent) :=
    lt_of_lt_of_le (zpow_pos (by norm_num) _) hlow
  dsimp only
  generalize (digitCount coefficient : Int) + exponent = top at *
  split
  · next htop =>
    -- at least `2 ^ 1200`
    have hle := (two_zpow_le_ten_zpow (by omega : 0 ≤ top - 1)).trans hlow
    have hlog := (Int.zpow_le_iff_le_log (by decide : 1 < 2) hq).mp (by exact_mod_cast hle)
    exact (binary64_nearest_of_le hq (by omega)).symm
  · split
    · next htop =>
      -- below `2 ^ (-1200)`
      have hlt := hhigh.trans_le (ten_zpow_le_two_zpow (by omega : top ≤ 0))
      have hlog := (Int.lt_zpow_iff_log_lt (by decide : 1 < 2) hq).mp (by exact_mod_cast hlt)
      exact (binary64_nearest_of_lt hq (by omega)).symm
    · rw [Format.code_eq_nearest _ (decimalRatio_pos _ _), decimalRatio_eq]

/-! ## The digits to write -/

theorem withDigits?_reads {fmt : Format} {code count : Nat} {number : Nat × Int}
    (h : withDigits? fmt code count = some number) : decimalCode fmt number.1 number.2 = code := by
  simp only [withDigits?, Bool.and_eq_true, decide_eq_true_eq] at h
  split at h
  · next hlower =>
    cases h
    exact hlower.1
  · split at h
    · next hupper =>
      cases h
      exact hupper
    · cases h

theorem decimalValue_stripZeros (fuel : Nat) (number : Nat × Int) :
    decimalValue (stripZeros fuel number) = decimalValue number := by
  induction fuel generalizing number with
  | zero => rfl
  | succ fuel ih =>
    obtain ⟨coefficient, exponent⟩ := number
    simp only [stripZeros]
    split
    · next h =>
      simp only [Bool.and_eq_true, decide_eq_true_eq] at h
      obtain ⟨k, rfl⟩ := Nat.dvd_of_mod_eq_zero h.2
      rw [ih, Nat.mul_div_cancel_left k (by decide)]
      simp only [decimalValue]
      push_cast
      rw [zpow_add_one₀ (by norm_num)]
      ring
    · rfl

theorem decimalValue_exactDecimal (fmt : Format) (code : Nat) :
    decimalValue (exactDecimal fmt code) = fmt.value code := by
  simp only [exactDecimal, Format.value, decimalValue]
  generalize fmt.parts code = split
  obtain ⟨significand, e⟩ := split
  dsimp only
  split
  · next he =>
    obtain ⟨n, rfl⟩ := Int.eq_ofNat_of_zero_le he
    simp
  · next he =>
    obtain ⟨n, rfl⟩ : ∃ n : Nat, e = -(n : Int) := ⟨(-e).toNat, by omega⟩
    -- every half is five tenths
    simp only [neg_neg, Int.toNat_natCast, Nat.pow_eq, Nat.cast_mul, Nat.cast_pow, Nat.cast_ofNat,
      zpow_neg, zpow_natCast, mul_assoc]
    rw [show (10 : ℚ) = 5 * 2 by norm_num, mul_pow, mul_inv, ← mul_assoc ((5 : ℚ) ^ n),
      mul_inv_cancel₀ (by positivity), one_mul]

/-- The digits written for a code are rounded to it. -/
theorem nearest_shortest {code : Nat} (h : code ≤ binary64.infinity) :
    binary64.nearest (decimalValue (shortest binary64 code)) = code := by
  unfold shortest
  split
  · next number hfound =>
    obtain ⟨count, _, hcount⟩ := List.exists_of_findSome?_eq_some hfound
    rw [decimalValue_stripZeros, ← decimalCode_eq]
    exact withDigits?_reads hcount
  · rw [decimalValue_exactDecimal]
    exact Format.nearest_value binary64_precision h

/-- Digits without a fraction are a whole number, so a code that is none has a fraction. -/
theorem shortest_exponent_neg {code : Nat} (h : code < binary64.infinity)
    (hcode : binary64.isIntegral code = false) : (shortest binary64 code).2 < 0 := by
  by_contra hexponent
  obtain ⟨n, hn⟩ := Int.eq_ofNat_of_zero_le (not_lt.mp hexponent)
  have hnearest := nearest_shortest h.le
  have hvalue : decimalValue (shortest binary64 code) =
      ((shortest binary64 code).1 * 10 ^ n : Nat) := by
    simp [decimalValue, hn]
  rw [hvalue] at hnearest
  have := Format.isIntegral_nearest binary64_precision ((shortest binary64 code).1 * 10 ^ n)
    (hnearest.trans_lt h)
  rw [hnearest, hcode] at this
  cases this

/-! ## Digits -/

theorem digitsValue_eq (digits : List Char) : digitsValue digits = Nat.ofDigitChars 10 digits 0 :=
  Nat.ofDigitChars_eq_foldl.symm

@[simp] theorem digitsValue_toDigits (n : Nat) : digitsValue (Nat.toDigits 10 n) = n := by
  rw [digitsValue_eq, Nat.ofDigitChars_ten_toDigits]

theorem digitsValue_zeros (n : Nat) (digits : List Char) :
    digitsValue (zeros n ++ digits) = digitsValue digits := by
  rw [digitsValue_eq, digitsValue_eq, Nat.ofDigitChars_append, zeros,
    Nat.ofDigitChars_replicate_zero, Nat.mul_zero]

theorem isDigit_of_mem_zeros {n : Nat} {c : Char} (h : c ∈ zeros n) : c.isDigit = true := by
  rw [List.eq_of_mem_replicate h]
  decide

/-! ## The written form -/

/-- Digits on both sides of a point. -/
structure Pointed (text whole fraction : List Char) : Prop where
  text_eq : text = whole ++ '.' :: fraction
  whole_ne : whole ≠ []
  fraction_ne : fraction ≠ []
  digits : ∀ c ∈ whole ++ fraction, c.isDigit = true

/-- The value of the digits around the point. -/
def pointedValue (whole fraction : List Char) : ℚ :=
  decimalValue (digitsValue (whole ++ fraction), -(fraction.length : Int))

theorem pointed_positional {number : Nat × Int} (h : number.2 < 0) :
    ∃ whole fraction, Pointed (positional number).toList whole fraction ∧
      pointedValue whole fraction = decimalValue number := by
  obtain ⟨coefficient, exponent⟩ := number
  obtain ⟨places, rfl⟩ : ∃ n : Nat, exponent = -(n : Int) := ⟨(-exponent).toNat, by omega⟩
  have hplaces : 0 < places := by
    simp only at h
    omega
  simp only [positional, if_neg (not_le.mpr h), neg_neg, Int.toNat_natCast, String.toList_ofList]
  generalize hpadded : zeros (places + 1 - (Nat.toDigits 10 coefficient).length) ++
    Nat.toDigits 10 coefficient = padded
  have hlength : places < padded.length := by
    rw [← hpadded, List.length_append, zeros, List.length_replicate]
    omega
  have hdigits : ∀ c ∈ padded, c.isDigit = true := by
    intro c hc
    rw [← hpadded, List.mem_append] at hc
    rcases hc with hc | hc
    · exact isDigit_of_mem_zeros hc
    · exact Nat.isDigit_of_mem_toDigits (by decide) le_rfl hc
  have hvalue : digitsValue padded = coefficient := by
    rw [← hpadded, digitsValue_zeros, digitsValue_toDigits]
  refine ⟨_, _, ⟨rfl, ?_, ?_, ?_⟩, ?_⟩
  · rw [← List.length_pos_iff, List.length_take]
    omega
  · rw [← List.length_pos_iff, List.length_drop]
    omega
  · rwa [List.take_append_drop]
  · rw [pointedValue, List.take_append_drop, hvalue, List.length_drop,
      show padded.length - (padded.length - places) = places by omega]

theorem pointed_integer (n : Nat) :
    ∃ whole fraction, Pointed (toString n ++ ".0").toList whole fraction ∧
      pointedValue whole fraction = n := by
  refine ⟨Nat.toDigits 10 n, ['0'], ⟨?_, Nat.toDigits_ne_nil, by decide, ?_⟩, ?_⟩
  · rw [String.toList_append, Nat.toString_eq_ofList_toDigits, String.toList_ofList]
    rfl
  · intro c hc
    rcases List.mem_append.mp hc with hc | hc
    · exact Nat.isDigit_of_mem_toDigits (by decide) le_rfl hc
    · rw [List.mem_singleton.mp hc]
      decide
  · have hvalue : digitsValue (Nat.toDigits 10 n ++ ['0']) = n * 10 := by
      rw [digitsValue_eq, Nat.ofDigitChars_append, Nat.ofDigitChars_ten_toDigits,
        Nat.ofDigitChars_cons, Nat.ofDigitChars_nil, Nat.mul_comm]
      rfl
    simp [pointedValue, hvalue, decimalValue]

/-- The sign in front of a number. -/
def signOf (negative : Bool) : List Char := if negative then ['-'] else []

/-- The digits of a finite constant lie around a point and are rounded to its code. -/
theorem exists_pointed (negative : Bool) {code : Nat} (h : code < binary64.infinity) :
    ∃ text whole fraction, Pointed text whole fraction ∧
      binary64.nearest (pointedValue whole fraction) = code ∧
      (constantText negative code).toList = signOf negative ++ text := by
  have hsigned : ∀ digits : String, (signedText binary64 negative code digits).toList =
      signOf negative ++ digits.toList := by
    intro digits
    cases negative <;> simp [signedText, signOf, h, not_lt.mpr h.le]
  unfold constantText
  split
  · next hintegral =>
    obtain ⟨_, n, hn⟩ := Format.isIntegral_iff.mp hintegral
    have hquotient : (binary64.ratio code).1 / (binary64.ratio code).2 = n := by
      rw [← Format.ratio_eq, div_eq_iff (by exact_mod_cast (binary64.ratio_pos code).ne')] at hn
      exact Nat.div_eq_of_eq_mul_left (binary64.ratio_pos code) (by exact_mod_cast hn)
    obtain ⟨whole, fraction, hpointed, hvalue⟩ := pointed_integer n
    refine ⟨_, whole, fraction, hpointed, ?_, ?_⟩
    · rw [hvalue, ← hn]
      exact Format.nearest_value binary64_precision h.le
    · rw [hsigned, hquotient]
  · next hfractional =>
    have hzero : code ≠ 0 := by
      rintro rfl
      exact hfractional (Format.isIntegral_iff.mpr
        ⟨h, 0, by simp [Format.value, Format.parts_of_lt Format.span_pos]⟩)
    have hexponent := shortest_exponent_neg h (Bool.eq_false_iff.mpr hfractional)
    obtain ⟨whole, fraction, hpointed, hvalue⟩ := pointed_positional hexponent
    refine ⟨_, whole, fraction, hpointed, ?_, ?_⟩
    · rw [hvalue]
      exact nearest_shortest h.le
    · rw [codeText, hsigned, if_neg hzero]

/-! ## Reading it -/

/-- A run of characters with a property ends before one that does not have it. -/
theorem takeWhile_run {p : Char → Bool} {run : List Char} (rest : List Char)
    (h : ∀ c ∈ run, p c = true) (hrest : ∀ c ∈ rest.head?, p c = false) :
    (run ++ rest).takeWhile p = run ∧ (run ++ rest).dropWhile p = rest := by
  rw [List.takeWhile_append_of_pos h, List.dropWhile_append_of_pos h]
  cases rest with
  | nil => simp
  | cons c rest => simp [hrest c rfl]

theorem Pointed.readDecimal {text whole fraction : List Char} (h : Pointed text whole fraction) :
    readDecimal? text = some (digitsValue (whole ++ fraction), -(fraction.length : Int)) := by
  have hwhole : ∀ c ∈ whole, c.isDigit = true := fun c hc => h.digits c (by simp [hc])
  have hfraction : ∀ c ∈ fraction, c.isDigit = true := fun c hc => h.digits c (by simp [hc])
  obtain ⟨htake, hdrop⟩ := takeWhile_run ('.' :: fraction) hwhole
    (by rintro c ⟨⟩; decide)
  obtain ⟨htake', hdrop'⟩ := takeWhile_run [] hfraction (by simp)
  rw [List.append_nil] at htake' hdrop'
  simp [readDecimal?, h.text_eq, htake, hdrop, htake', hdrop', h.whole_ne, readExponent?]

theorem toLower_of_isDigit {c : Char} (h : c.isDigit = true) : c.toLower = c := by
  simp only [Char.isDigit, Bool.and_eq_true, decide_eq_true_eq] at h
  unfold Char.toLower
  refine dif_neg fun hupper => ?_
  exact absurd (UInt32.le_trans hupper.1 h.2) (by decide)

/-- Such a text starts with a digit, so it is not one of the words for what has no digits. -/
theorem Pointed.readMagnitude {text whole fraction : List Char} (h : Pointed text whole fraction) :
    readMagnitude? text = some (binary64.nearest (pointedValue whole fraction)) := by
  obtain ⟨first, rest, hfirst⟩ := List.exists_cons_of_ne_nil h.whole_ne
  have hdigit : first.isDigit = true := h.digits first (by simp [hfirst])
  have hword : ∀ word c cs, word.toList = c :: cs → c.isDigit = false →
      String.ofList (text.map Char.toLower) ≠ word := by
    rintro word c cs hchars hc rfl
    rw [String.toList_ofList, h.text_eq, hfirst] at hchars
    obtain ⟨rfl, _⟩ := List.cons.inj hchars
    rw [toLower_of_isDigit hdigit, hdigit] at hc
    cases hc
  have hinf := hword "inf" 'i' ['n', 'f'] rfl rfl
  have hinfinity := hword "infinity" 'i' ['n', 'f', 'i', 'n', 'i', 't', 'y'] rfl rfl
  have hnan := hword "nan" 'n' ['a', 'n'] rfl rfl
  simp [readMagnitude?, hinf, hinfinity, hnan, h.readDecimal, decimalCode_eq, pointedValue]

theorem Pointed.readCode {text whole fraction : List Char} (h : Pointed text whole fraction)
    (negative : Bool) :
    readCode? (signOf negative ++ text) =
      some (negative, binary64.nearest (pointedValue whole fraction)) := by
  have hsplit : splitSign (signOf negative ++ text) = (negative, text) := by
    cases negative with
    | true => rfl
    | false =>
      obtain ⟨first, rest, hfirst⟩ := List.exists_cons_of_ne_nil h.whole_ne
      have hdigit : first.isDigit = true := h.digits first (by simp [hfirst])
      rw [h.text_eq, hfirst, signOf]
      unfold splitSign
      split
      · next heq =>
        cases heq
        exact absurd hdigit (by decide)
      · next heq =>
        cases heq
        exact absurd hdigit (by decide)
      · rfl
  simp [readCode?, hsplit, h.readMagnitude]

end Number

namespace Scalar

/-- A constant is its sign and its magnitude. -/
theorem ofCode_magnitude (s : Scalar) : ofCode s.isNegative s.magnitude = s := by
  obtain ⟨bits⟩ := s
  have hlt := bits.toNat_lt
  have hsign : Number.signBit = 2 ^ 63 := rfl
  simp only [ofCode, isNegative, magnitude, decide_eq_true_eq, hsign, mk.injEq]
  rw [← UInt64.toNat_inj, UInt64.toNat_ofNat']
  split <;> omega

/-- Machine words are far from the largest double. -/
theorem isFinite_ofNat {n : Nat} (h : n < 2 ^ 64) : (ofNat n).isFinite = true := by
  have hcode : Number.binary64.code n 1 < Number.binary64.infinity := by
    rw [Number.Format.code_eq_nearest n Nat.one_pos, Nat.cast_one, div_one]
    rcases Nat.eq_zero_or_pos n with rfl | hn
    · rw [Nat.cast_zero, Number.Format.nearest_zero]
      decide
    · refine Number.binary64_nearest_lt_infinity (by exact_mod_cast hn) ?_
      have hlog : Nat.log 2 n < 64 := Nat.log_lt_of_lt_pow hn.ne' h
      rw [Int.log_natCast]
      omega
  have hsign : Number.binary64.infinity < Number.signBit := by decide
  have hbits : Number.signBit < 2 ^ 64 := by decide
  have hmagnitude : (ofNat n).magnitude = Number.binary64.code n 1 := by
    have hlt := hcode.trans hsign
    simp only [ofNat, ofCode, magnitude, Bool.false_eq_true, if_false, Nat.add_zero,
      UInt64.toNat_ofNat']
    rw [Nat.mod_eq_of_lt (hlt.trans hbits), Nat.mod_eq_of_lt hlt]
  simpa [isFinite, hmagnitude] using hcode

/-- A finite constant is read back from its text, bit for bit. -/
theorem read?_text {s : Scalar} (h : s.isFinite = true) :
    ∃ text whole fraction, Number.Pointed text whole fraction ∧
      s.text.toList = Number.signOf s.isNegative ++ text ∧
      read? s.text.toList = some s := by
  obtain ⟨text, whole, fraction, hpointed, hcode, htext⟩ :=
    Number.exists_pointed s.isNegative (of_decide_eq_true h)
  refine ⟨text, whole, fraction, hpointed, htext, ?_⟩
  rw [Scalar.text, htext, read?, hpointed.readCode, hcode]
  simp [ofCode_magnitude]

end Scalar

end ArrayOffload
