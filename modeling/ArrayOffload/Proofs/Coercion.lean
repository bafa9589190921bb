import ArrayOffload.Eval
import ArrayOffload.Proofs.Rounding
import Mathlib

/-!
# Coerced values

A value that was coerced to an element type is a value of that type: coercing it again changes
nothing, and zero is a value of every type. Rounding to an integer or to a single gives a number that
is rounded to itself.

* `Number.magnitude_ofCode`, `Number.isNegative_ofCode`: a double is made of its sign and its code;
* `Number.ofInt_truncate_ofInt`: the double nearest to an integer in a range, back in that range;
* `Number.toSingle_toSingle`: a single is rounded to itself;
* `Elem.coerce_coerce`, `Elem.coerce_zero`: all element types.
-/

namespace ArrayOffload

namespace Number

/-! ## The parts of a double -/

/-- The bits of a magnitude up to infinity are not those of a NaN. -/
theorem valid_of_le {bits : BitVec 64} (h : bits.toNat % signBit ≤ binary64.infinity) :
    Float.Model.Format.binary64.Valid bits := by
  refine ⟨fun hexponent hmantissa => absurd ?_ hmantissa⟩
  have hfield : bits.toNat / 2 ^ 52 % 2 ^ 11 = 2047 := by
    have hbits := congrArg BitVec.toNat hexponent
    rwa [Float.Model.UnpackedFloat.unpackExponent_def, BitVec.extractLsb'_toNat,
      Nat.shiftRight_eq_div_pow] at hbits
  have hfraction : bits.toNat % 2 ^ 52 = 0 := by
    simp only [signBit, binary64] at h
    omega
  rw [Float.Model.UnpackedFloat.unpackMantissa_def]
  refine BitVec.eq_of_toNat_eq ?_
  rw [BitVec.extractLsb'_toNat, Nat.shiftRight_zero]
  exact hfraction

theorem lt_signBit {code : Nat} (h : code ≤ binary64.infinity) : code < signBit :=
  h.trans_lt (by decide)

theorem mod_signBit (negative : Bool) {code : Nat} (h : code < signBit) :
    (code + if negative then signBit else 0) % signBit = code := by
  cases negative
  · exact Nat.mod_eq_of_lt h
  · exact (Nat.add_mod_right code signBit).trans (Nat.mod_eq_of_lt h)

/-- A double up to infinity keeps the bits it is made of. -/
theorem toBits_ofCode (negative : Bool) {code : Nat} (h : code ≤ binary64.infinity) :
    (ofCode negative code).toBits.toNat = code + if negative then signBit else 0 := by
  have hlt := lt_signBit h
  have hmod := mod_signBit negative hlt
  have hsmall : (code + if negative then signBit else 0) < 2 ^ 64 := by
    rw [show 2 ^ 64 = signBit + signBit from rfl]
    split <;> omega
  unfold ofCode
  generalize (code + if negative then signBit else 0) = word at hmod hsmall
  have hbits : (UInt64.ofNat word).toNat = word := UInt64.toNat_ofNat_of_lt' hsmall
  have hvalid : Float.Model.Format.binary64.Valid (UInt64.ofNat word).toBitVec := by
    refine valid_of_le ?_
    rw [UInt64.toNat_toBitVec, hbits, hmod]
    exact h
  have hkept := Float.ofBits_toBits ⟨⟨UInt64.ofNat word, hvalid⟩⟩
  exact (congrArg (fun v : Float => v.toBits.toNat) hkept).trans hbits

theorem magnitude_ofCode (negative : Bool) {code : Nat} (h : code ≤ binary64.infinity) :
    magnitude (ofCode negative code) = code := by
  rw [magnitude, toBits_ofCode negative h, mod_signBit negative (lt_signBit h)]

theorem isNegative_ofCode (negative : Bool) {code : Nat} (h : code ≤ binary64.infinity) :
    isNegative (ofCode negative code) = negative := by
  rw [isNegative, toBits_ofCode negative h]
  cases negative
  · exact decide_eq_false (by simpa using lt_signBit h)
  · exact decide_eq_true (Nat.le_add_left _ _)

theorem isNaN_ofCode (negative : Bool) {code : Nat} (h : code ≤ binary64.infinity) :
    isNaN (ofCode negative code) = false := by
  rw [isNaN, magnitude_ofCode negative h]
  exact decide_eq_false (Nat.not_lt.mpr h)

/-! ## Integers -/

theorem truncate_mem {low high : Int} (hlow : low ≤ 0) (hhigh : 0 ≤ high) (v : Float) :
    low ≤ truncate low high v ∧ truncate low high v ≤ high := by
  simp only [truncate]
  split_ifs <;> omega

/-- A whole number is kept, up to the bounds. -/
theorem truncate_ofCode (low high : Int) (negative : Bool) {code n : Nat}
    (hcode : code < binary64.infinity) (hvalue : binary64.value code = n) :
    truncate low high (ofCode negative code) =
      max low (min high (if negative then -(n : Int) else n)) := by
  have hquotient : (binary64.ratio code).1 / (binary64.ratio code).2 = n := by
    have hpos := binary64.ratio_pos code
    have heq := (binary64.ratio_eq code).trans hvalue
    rw [div_eq_iff (by exact_mod_cast hpos.ne')] at heq
    exact Nat.div_eq_of_eq_mul_left hpos (by exact_mod_cast heq)
  have hfinite : isFinite (ofCode negative code) = true := by
    rw [isFinite, magnitude_ofCode negative hcode.le]
    exact decide_eq_true hcode
  simp only [truncate, isNaN_ofCode negative hcode.le, hfinite, magnitude_ofCode negative hcode.le,
    isNegative_ofCode negative hcode.le, hquotient, if_true, Bool.false_eq_true, if_false]

theorem ofInt_eq (n : Int) : ofInt n = ofCode (n < 0) (binary64.nearest n.natAbs) := by
  rw [ofInt, binary64.code_eq_nearest n.natAbs Nat.one_pos, Nat.cast_one, div_one]

theorem nearest_natCast_pos {n : Nat} (h : 0 < n) : 0 < binary64.nearest n := by
  have hone : 0 < binary64.nearest (1 : Nat) := by
    have hcode := binary64.code_eq_nearest 1 Nat.one_pos
    rw [Nat.cast_one, div_one] at hcode
    rw [Nat.cast_one, ← hcode]
    decide +kernel
  exact hone.trans_le (Format.nearest_mono binary64_precision (Nat.cast_nonneg _) (Nat.cast_le.mpr h))

/-- The double nearest to a whole number of a machine word's size is a whole number, which is rounded
to that double. -/
theorem exists_whole {n : Nat} (h : n ≤ 2 ^ 63) : binary64.nearest n < binary64.infinity ∧
    ∃ m : Nat, binary64.value (binary64.nearest n) = m ∧ binary64.nearest m = binary64.nearest n := by
  have hfinite : binary64.nearest n < binary64.infinity := by
    rcases Nat.eq_zero_or_pos n with rfl | hpos
    · simp [binary64]
    · refine binary64_nearest_lt_infinity (by exact_mod_cast hpos) ?_
      rw [Int.log_natCast]
      have hlog : Nat.log 2 n ≤ 63 := (Nat.log_mono_right h).trans (by norm_num [Nat.log_pow])
      omega
  obtain ⟨-, m, hm⟩ := Format.isIntegral_iff.mp
    (Format.isIntegral_nearest binary64_precision n hfinite)
  exact ⟨hfinite, m, hm, hm ▸ Format.nearest_value binary64_precision hfinite.le⟩

/-- The double nearest to an integer of a range, taken back into that range, is the same double. -/
theorem ofInt_truncate_ofInt {low high n : Int} (hlow : low ≤ n) (hhigh : n ≤ high)
    (hneg : low ≤ 0) (hpos : 0 ≤ high) (hwide : n.natAbs ≤ 2 ^ 63) :
    ofInt (truncate low high (ofInt n)) = ofInt n := by
  obtain ⟨hfinite, m, hm, hsame⟩ := exists_whole hwide
  rw [ofInt_eq n, truncate_ofCode low high _ hfinite hm, ofInt_eq]
  by_cases hsign : n < 0
  · have hbound : n.natAbs ≤ low.natAbs := by omega
    have habs : (max low (min high (-(m : Int)))).natAbs = min low.natAbs m := by omega
    have hround := Format.nearest_min binary64_precision hbound hsame
    -- what is rounded to a negative double is not zero
    have hne : min low.natAbs m ≠ 0 := by
      intro hzero
      rw [hzero, Nat.cast_zero, Format.nearest_zero] at hround
      exact absurd hround.symm (nearest_natCast_pos (by omega)).ne'
    simp only [hsign, decide_true, if_true, habs, hround]
    rw [decide_eq_true (show max low (min high (-(m : Int))) < 0 by omega)]
  · have habs : (max low (min high (m : Int))).natAbs = min high.natAbs m := by omega
    have hround := Format.nearest_min binary64_precision
      (show n.natAbs ≤ high.natAbs by omega) hsame
    simp only [hsign, decide_false, Bool.false_eq_true, if_false, habs, hround]
    rw [decide_eq_false (show ¬ max low (min high (m : Int)) < 0 by omega)]

/-- What was truncated to a range is kept when it is truncated again. -/
theorem ofInt_truncate_idem {low high : Int} (hneg : low ≤ 0) (hpos : 0 ≤ high)
    (hlow : -2 ^ 63 ≤ low) (hhigh : high ≤ 2 ^ 63) (v : Float) :
    ofInt (truncate low high (ofInt (truncate low high v))) = ofInt (truncate low high v) := by
  obtain ⟨hbelow, habove⟩ := truncate_mem hneg hpos v
  exact ofInt_truncate_ofInt hbelow habove hneg hpos (by omega)

theorem ofInt_truncate_zero {low high : Int} (hneg : low ≤ 0) (hpos : 0 ≤ high) :
    ofInt (truncate low high zero) = zero := by
  have hvalue : binary64.value 0 = (0 : Nat) := by
    simp [Format.value, Format.parts_of_lt Format.span_pos]
  have hkept : truncate low high (ofCode false 0) = 0 := by
    rw [truncate_ofCode low high false (by decide) hvalue]
    simp [hneg, hpos]
  rw [zero, hkept]
  rfl

/-! ## Singles -/

/-- Every finite single is a double. -/
theorem exists_wide {code : Nat} (h : code < binary32.infinity) :
    ∃ wide < binary64.infinity, binary64.value wide = binary32.value code := by
  obtain ⟨significand, k, high, low, rfl⟩ := binary32.exists_significand code
  rw [Format.value_add high.le low]
  rcases Nat.eq_zero_or_pos significand with rfl | hpos
  · exact ⟨0, by decide, by simp [Format.value, Format.parts_of_lt Format.span_pos]⟩
  -- the significand is moved up to the place of the leading bit of a double
  have hlog : significand.log2 < 24 := (Nat.log2_lt hpos.ne').mpr high
  have hsplit : binary64.span = 2 ^ significand.log2 * 2 ^ (52 - significand.log2) := by
    rw [← Nat.pow_add, Nat.add_sub_cancel' (by omega)]
    rfl
  have hbelow : binary64.span ≤ significand * 2 ^ (52 - significand.log2) := by
    rw [hsplit]
    exact Nat.mul_le_mul_right _ (Nat.log2_self_le hpos.ne')
  have habove : significand * 2 ^ (52 - significand.log2) ≤ 2 * binary64.span := by
    rw [hsplit, ← Nat.mul_assoc, ← Nat.pow_succ']
    exact Nat.mul_le_mul_right _ Nat.lt_log2_self.le
  have hk : k < 255 := by
    have hspan : binary32.infinity = 255 * binary32.span := by decide
    rw [hspan] at h
    exact Nat.lt_of_mul_lt_mul_right ((Nat.le_add_left _ _).trans_lt h)
  refine ⟨significand * 2 ^ (52 - significand.log2) +
    (873 + k + significand.log2) * binary64.span, ?_, ?_⟩
  · have hinfinity : binary64.infinity = 2 * binary64.span + 2045 * binary64.span := by decide
    rw [hinfinity]
    exact Nat.add_lt_add_of_le_of_lt habove (Nat.mul_lt_mul_of_pos_right (by omega) Format.span_pos)
  · rw [Format.value_add habove (.inr hbelow)]
    push_cast
    rw [mul_assoc, ← zpow_natCast, ← zpow_add₀ two_ne_zero]
    simp only [binary64, binary32]
    congr 2
    omega

theorem singleCode_le (v : Float) : singleCode v ≤ binary32.infinity := by
  unfold singleCode Format.code
  split
  · exact le_rfl
  · dsimp only
    split
    · exact Nat.zero_le _
    · exact min_le_left _ _

/-- A single is rounded to itself. -/
theorem toSingle_widen (negative : Bool) {code : Nat} (h : code ≤ binary32.infinity) :
    toSingle (widen binary32 negative code) = widen binary32 negative code := by
  rcases h.lt_or_eq with hlt | rfl
  · obtain ⟨wide, hwide, hvalue⟩ := exists_wide hlt
    have hcode : binary64.code (binary32.ratio code).1 (binary32.ratio code).2 = wide := by
      rw [binary64.code_eq_nearest _ (binary32.ratio_pos code), binary32.ratio_eq, ← hvalue]
      exact Format.nearest_value binary64_precision hwide.le
    have hsame : widen binary32 negative code = ofCode negative wide := by
      simp only [widen, if_neg (Nat.not_le.mpr hlt), hcode]
    have hsingle : singleCode (ofCode negative wide) = code := by
      rw [singleCode, magnitude_ofCode negative hwide.le, if_neg hwide.ne]
      rw [binary32.code_eq_nearest _ (binary64.ratio_pos wide), binary64.ratio_eq, hvalue]
      exact Format.nearest_value (by decide) h
    rw [hsame, toSingle, isNaN_ofCode negative hwide.le, isNegative_ofCode negative hwide.le, hsingle,
      hsame]
    rfl
  · have hsame : widen binary32 negative binary32.infinity = ofCode negative binary64.infinity :=
      if_pos le_rfl
    have hsingle : singleCode (ofCode negative binary64.infinity) = binary32.infinity := by
      rw [singleCode, magnitude_ofCode negative le_rfl, if_pos rfl]
    rw [hsame, toSingle, isNaN_ofCode negative le_rfl, isNegative_ofCode negative le_rfl, hsingle,
      hsame]
    rfl

theorem toSingle_toSingle (v : Float) : toSingle (toSingle v) = toSingle v := by
  by_cases hnan : isNaN v
  · have hkept : toSingle v = v := if_pos hnan
    rw [hkept, hkept]
  · rw [show toSingle v = widen binary32 (isNegative v) (singleCode v) from if_neg hnan]
    exact toSingle_widen _ (singleCode_le v)

end Number

/-! ## Element types -/

namespace Elem

theorem coerce_coerce (elem : Elem) (v : Float) : elem.coerce (elem.coerce v) = elem.coerce v := by
  cases elem with
  | f32 => exact Number.toSingle_toSingle v
  | f64 => rfl
  | i32 | i64 =>
    exact Number.ofInt_truncate_idem (by decide) (by decide) (by decide) (by decide) v

theorem coerce_zero (elem : Elem) : elem.coerce Number.zero = Number.zero := by
  cases elem with
  | f32 => exact Number.toSingle_widen false (Nat.zero_le _)
  | f64 => rfl
  | i32 | i64 => exact Number.ofInt_truncate_zero (by decide) (by decide)

end Elem

end ArrayOffload
