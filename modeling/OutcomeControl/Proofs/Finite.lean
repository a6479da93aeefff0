import Mathlib.Data.Nat.Log
import OutcomeControl.Number.Numeral

/-! What a numeral stands for is a finite double.

A quotient is rounded to one of the finite doubles as long as it is no larger than the largest of them
(`Double.nearest_lt`), so dividing by a power of ten never leaves them; a product that does is refused
when it is read. -/

namespace OutcomeControl

theorem twoTo_pos (n : Nat) : 0 < twoTo n := Nat.pow_pos (by decide)

theorem twoTo_add (m n : Nat) : twoTo (m + n) = twoTo m * twoTo n := Nat.pow_add 2 m n

theorem twoTo_le {m n : Nat} (h : m ≤ n) : twoTo m ≤ twoTo n := Nat.pow_le_pow_right (by decide) h

theorem log2_lt_of_lt_twoTo {n k : Nat} (hk : 0 < k) (h : n < twoTo k) : n.log2 < k := by
  by_cases hn : n = 0
  · rwa [hn, Nat.log2_zero]
  · exact (Nat.log2_lt hn).mpr h

theorem le_log2_of_twoTo_le {n k : Nat} (hn : n ≠ 0) (h : twoTo k ≤ n) : k ≤ n.log2 :=
  (Nat.le_log2 hn).mpr h

namespace Double

/-! ### Rounding -/

theorem roundDiv_le {num den k : Nat} (hden : 0 < den) (h : num ≤ k * den) : roundDiv num den ≤ k := by
  have hle : num / den ≤ k := Nat.div_le_of_le_mul (Nat.mul_comm k den ▸ h)
  simp only [roundDiv]
  rcases Nat.lt_or_eq_of_le hle with hlt | heq
  · split <;> omega
  · -- The quotient is exact, so there is nothing to round up.
    have hrem : num % den = 0 := by
      have hsum := Nat.div_add_mod num den
      rw [heq, Nat.mul_comm] at hsum
      omega
    rw [if_pos (Or.inl (by omega))]
    exact hle

/-- A quotient that is no larger than the largest finite double is rounded to a finite one. -/
theorem nearest_lt {num den : Nat} (hden : 0 < den)
    (h : num * twoTo 1074 ≤ (twoTo 53 - 1) * (den * twoTo 2045)) : nearest num den < infinity := by
  obtain ⟨whole, hwhole⟩ : ∃ whole, num * twoTo 1074 / den = whole := ⟨_, rfl⟩
  have htop : whole < twoTo (53 + 2045) := by
    rw [Nat.mul_left_comm] at h
    rw [twoTo_add, ← hwhole]
    exact Nat.lt_of_le_of_lt (Nat.div_le_of_le_mul h)
      (Nat.mul_lt_mul_of_pos_right (by decide) (twoTo_pos _))
  have hbits : whole < twoTo (whole.log2 + 1) := Nat.lt_log2_self
  have hlog : whole.log2 < 53 + 2045 := log2_lt_of_lt_twoTo (by decide) htop
  obtain ⟨scale, hscale⟩ : ∃ scale, whole.log2 - 52 = scale := ⟨_, rfl⟩
  have hround : scale * twoTo 52 + roundDiv (num * twoTo 1074) (den * twoTo scale) < infinity := by
    have hden' : 0 < den * twoTo scale := Nat.mul_pos hden (twoTo_pos _)
    have h52 : twoTo 52 = 4503599627370496 := rfl
    have h53 : twoTo 53 = 9007199254740992 := rfl
    have hinfinity : infinity = 2047 * 4503599627370496 := rfl
    rw [h52]
    by_cases hlast : scale = 2045
    · subst hlast
      have := roundDiv_le hden' h
      omega
    · have hsmall : num * twoTo 1074 ≤ twoTo 53 * (den * twoTo scale) := by
        have hlt : whole < twoTo (53 + scale) := Nat.lt_of_lt_of_le hbits (twoTo_le (by omega))
        rw [← hwhole, Nat.div_lt_iff_lt_mul hden, twoTo_add, Nat.mul_assoc, Nat.mul_comm _ den] at hlt
        exact Nat.le_of_lt hlt
      have := roundDiv_le hden' hsmall
      omega
  subst hwhole hscale
  exact Nat.lt_of_le_of_lt (Nat.min_le_left _ _) hround

theorem div_le_roundDiv (num den : Nat) : num / den ≤ roundDiv num den := by
  simp only [roundDiv]
  split <;> omega

/-- A quotient that is at least one is rounded to a double that is. -/
theorem le_nearest {num den : Nat} (hden : 0 < den) (h : den ≤ num) :
    1023 * twoTo 52 ≤ nearest num den := by
  obtain ⟨whole, hwhole⟩ : ∃ whole, num * twoTo 1074 / den = whole := ⟨_, rfl⟩
  have hone : twoTo 1074 ≤ whole := by
    rw [← hwhole, Nat.le_div_iff_mul_le hden, Nat.mul_comm]
    exact Nat.mul_le_mul_right _ h
  have hpos : whole ≠ 0 := Nat.ne_of_gt (Nat.lt_of_lt_of_le (twoTo_pos _) hone)
  have hlog : 1074 ≤ whole.log2 := le_log2_of_twoTo_le hpos hone
  obtain ⟨scale, hscale⟩ : ∃ scale, whole.log2 - 52 = scale := ⟨_, rfl⟩
  have hround : twoTo 52 ≤ roundDiv (num * twoTo 1074) (den * twoTo scale) := by
    refine Nat.le_trans ?_ (div_le_roundDiv _ _)
    rw [← Nat.div_div_eq_div_mul, hwhole, Nat.le_div_iff_mul_le (twoTo_pos _), ← twoTo_add]
    exact Nat.le_trans (twoTo_le (by omega)) (Nat.log2_self_le hpos)
  have hsum : 1023 * twoTo 52 ≤
      scale * twoTo 52 + roundDiv (num * twoTo 1074) (den * twoTo scale) := by
    calc 1023 * twoTo 52 ≤ (scale + 1) * twoTo 52 := Nat.mul_le_mul_right _ (by omega)
      _ = scale * twoTo 52 + twoTo 52 := Nat.succ_mul _ _
      _ ≤ _ := Nat.add_le_add_left hround _
  subst hwhole hscale
  exact Nat.le_min.mpr ⟨hsum, by decide⟩

theorem magnitude_ofMagnitude (negative : Bool) {m : Nat} (h : m < twoTo 63) :
    (ofMagnitude negative m).magnitude = m := by
  have h63 : twoTo 63 = 9223372036854775808 := rfl
  rw [h63] at h
  simp only [ofMagnitude, magnitude, h63]
  cases negative <;> simp [Nat.toUInt64] <;> omega

theorem isFinite_ofRatio (negative : Bool) {num den : Nat} (hden : 0 < den)
    (h : num * twoTo 1074 ≤ (twoTo 53 - 1) * (den * twoTo 2045)) :
    (ofRatio negative num den).isFinite = true := by
  have hlt := nearest_lt hden h
  have hmagnitude : nearest num den < twoTo 63 := Nat.lt_trans hlt (by decide)
  rw [isFinite, ofRatio, magnitude_ofMagnitude _ hmagnitude]
  exact decide_eq_true hlt

/-! ### Dividing by one or more -/

theorem significand_lt (d : Double) : d.significand ≤ twoTo 53 - 1 := by
  have h52 : twoTo 52 = 4503599627370496 := rfl
  have h53 : twoTo 53 = 9007199254740992 := rfl
  rw [significand, h52, h53]
  split <;> omega

theorem scale_le {d : Double} (h : d.isFinite = true) : d.scale ≤ 2045 := by
  have h52 : twoTo 52 = 4503599627370496 := rfl
  have hlt : d.magnitude < 2047 * twoTo 52 := of_decide_eq_true h
  rw [h52] at hlt
  rw [scale, h52]
  omega

/-- The double is at least one. -/
def AtLeastOne (d : Double) : Prop := twoTo 1074 ≤ d.significand * twoTo d.scale

theorem isFinite_div {a b : Double} (ha : a.isFinite = true) (hb : b.AtLeastOne) :
    (a.div b).isFinite = true := by
  have hsize : a.significand * twoTo a.scale ≤ (twoTo 53 - 1) * twoTo 2045 :=
    Nat.mul_le_mul a.significand_lt (twoTo_le (scale_le ha))
  have hpos : 0 < b.significand * twoTo b.scale := Nat.lt_of_lt_of_le (twoTo_pos _) hb
  have hdiv : a.div b = ofRatio a.isNegative (a.significand * twoTo a.scale * twoTo 1074)
      (twoTo 1074 * (b.significand * twoTo b.scale)) := rfl
  rw [hdiv]
  refine isFinite_ofRatio _ (Nat.mul_pos (twoTo_pos _) hpos) ?_
  unfold AtLeastOne at hb
  generalize b.significand * twoTo b.scale = divisor at hb
  generalize twoTo 1074 = one at hb
  calc a.significand * twoTo a.scale * one * one
      ≤ (twoTo 53 - 1) * twoTo 2045 * divisor * one :=
        Nat.mul_le_mul_right _ (Nat.mul_le_mul hsize hb)
    _ = (twoTo 53 - 1) * (one * divisor * twoTo 2045) := by
        rw [Nat.mul_assoc, Nat.mul_assoc, Nat.mul_comm divisor one, Nat.mul_comm (twoTo 2045)]

theorem atLeastOne_ofRatio {num den : Nat} (hden : 0 < den) (h : den ≤ num) :
    (ofRatio false num den).AtLeastOne := by
  have h52 : twoTo 52 = 4503599627370496 := rfl
  have htop : nearest num den < twoTo 63 :=
    Nat.lt_of_le_of_lt (Nat.min_le_right _ _) (by decide)
  have hlow := le_nearest hden h
  have hmagnitude := magnitude_ofMagnitude false htop
  have hsignificand : twoTo 52 ≤ (ofRatio false num den).significand := by
    rw [significand, ofRatio, hmagnitude, if_neg (by rw [h52] at hlow ⊢; omega)]
    exact Nat.le_add_right _ _
  have hscale : 1022 ≤ (ofRatio false num den).scale := by
    rw [scale, ofRatio, hmagnitude]
    have := (Nat.le_div_iff_mul_le (twoTo_pos 52)).mpr hlow
    omega
  calc twoTo 1074 = twoTo 52 * twoTo 1022 := twoTo_add 52 1022
    _ ≤ _ := Nat.mul_le_mul hsignificand (twoTo_le hscale)

end Double

/-! ### Numerals -/

namespace Numeral

theorem atLeastOne_powerOfTen (e : Nat) : (powerOfTen e).AtLeastOne :=
  Double.atLeastOne_ofRatio (by decide) (Nat.pow_pos (by decide))

theorem isFinite_shrink {d : Double} (h : d.isFinite = true) (steps e : Nat) :
    (shrink d steps e).isFinite = true := by
  induction steps generalizing d e with
  | zero => exact Double.isFinite_div h (atLeastOne_powerOfTen _)
  | succ steps ih =>
    unfold shrink
    split
    next => exact Double.isFinite_div h (atLeastOne_powerOfTen _)
    next =>
      split
      next => exact h
      next => exact ih (Double.isFinite_div h (atLeastOne_powerOfTen _)) _

theorem absorb_lt {n : Nat} (h : n < wordLimit) (ds : List (Fin 10)) : (absorb n ds).1 < wordLimit := by
  induction ds generalizing n with
  | nil => exact h
  | cons d ds ih =>
    unfold absorb
    split
    next hfits => exact ih hfits
    next => exact h

theorem scaled_lt (n : Numeral) : n.scaled.1 < wordLimit :=
  absorb_lt (absorb_lt (by decide) _) _

theorem isFinite_ofWord (negative : Bool) {w : Nat} (h : w < wordLimit) :
    (Double.ofRatio negative w 1).isFinite = true := by
  refine Double.isFinite_ofRatio _ (by decide) ?_
  calc w * twoTo 1074 ≤ twoTo 64 * twoTo 1074 := Nat.mul_le_mul_right _ (Nat.le_of_lt h)
    _ ≤ (twoTo 53 - 1) * (1 * twoTo 2045) := by decide +kernel

/-- **A numeral that stands for a double stands for a finite one.** -/
theorem isFinite_of_toDouble? {n : Numeral} {d : Double} (h : n.toDouble? = some d) :
    d.isFinite = true := by
  have hword := isFinite_ofWord n.negative n.scaled_lt
  simp only [toDouble?] at h
  split at h
  next =>
    split at h
    next =>
      split at h
      next hfinite => exact Option.some.inj h ▸ hfinite
      next => cases h
    next =>
      split at h
      next => exact Option.some.inj h ▸ hword
      next => cases h
  next => exact Option.some.inj h ▸ isFinite_shrink hword _ _

end Numeral

end OutcomeControl
