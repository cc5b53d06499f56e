import Mathlib.Algebra.Order.Field.Power
import Mathlib.Data.Rat.Cast.Order
import Mathlib.Tactic.FieldSimp
import Mathlib.Tactic.Linarith
import Mathlib.Tactic.NormNum
import Mathlib.Tactic.Ring
import TagQuery.Number.Decimal
import TagQuery.Number.Shortest

/-!
# Shortest decimals round back

A quotient in the rounding interval of a number of the format rounds to that number, and the decimal
that is written for a number lies in the interval. The grids are tried down to seventeen digits,
where two neighbours on a grid are nearer to each other than the ends of the interval to its middle.

## Main definitions

- `RoundingInterval.HoldsAt`: whether a number of quarter steps lies in an interval.
- `Decimal.value`: the number that a decimal stands for.

## Main statements

- `Real64.ofSteps_of_holds`: what lies in the interval of a number rounds to it.
- `Number.holdsAt_shortest`: the shortest decimal of a number lies in its interval.
-/

namespace TagQuery

/-! ## Rounding -/

namespace Real64

/-- The whole number that is nearest to a quotient, and even when it is one of two. -/
theorem roundHalfEven_eq {num den k : Nat} (hden : 0 < den) (hlow : 2 * k * den ≤ 2 * num + den)
    (hhigh : 2 * num ≤ 2 * k * den + den)
    (heven : 2 * num + den = 2 * k * den ∨ 2 * num = 2 * k * den + den → k % 2 = 0) :
    roundHalfEven num den = k := by
  have hlt : num / den < k + 1 := by
    rw [Nat.div_lt_iff_lt_mul hden]
    linarith
  have hle : k - 1 ≤ num / den := by
    rw [Nat.le_div_iff_mul_le hden, Nat.sub_mul]
    have hk : 2 * (k * den) = 2 * k * den := by ring
    omega
  have hnum := Nat.div_add_mod num den
  have hmod := Nat.mod_lt num hden
  unfold roundHalfEven
  dsimp only
  generalize num / den = q at *
  generalize num % den = r at *
  have hcases : k = q ∨ k = q + 1 := by omega
  rcases hcases with rfl | rfl
  · have hp : 2 * k * den = 2 * (den * k) := by ring
    grind
  · have hp : 2 * (q + 1) * den = 2 * (den * q) + 2 * den := by ring
    grind

end Real64

theorem gapExponent_eq {q g : Nat} (hlt : q < 2 ^ (53 + g)) (hge : g = 0 ∨ 2 ^ (52 + g) ≤ q) :
    gapExponent q = g := by
  unfold gapExponent
  by_cases hq : q = 0
  · rcases hge with rfl | hge
    · simp [hq]
    · have := Nat.two_pow_pos (52 + g)
      omega
  · have hupper := (Nat.log2_lt hq).2 hlt
    rcases hge with rfl | hge
    · omega
    · have hlower := (Nat.le_log2 hq).2 hge
      omega

/-- The significand and the gap of a number of the format. -/
theorem Fits.exists_significand {steps : Nat} (h : Fits steps) :
    ∃ m, steps = m * 2 ^ gapExponent steps ∧ m < 2 ^ 53 ∧
      (gapExponent steps = 0 ∨ 2 ^ 52 ≤ m) := by
  obtain ⟨m, hm⟩ := h.2
  rw [Nat.pow_eq, Nat.mul_comm] at hm
  refine ⟨m, hm, ?_⟩
  have hgap : 0 < 2 ^ gapExponent steps := Nat.two_pow_pos _
  have hupper : m * 2 ^ gapExponent steps < 2 ^ 53 * 2 ^ gapExponent steps := by
    rw [← hm, ← Nat.pow_add]
    refine Nat.lt_of_lt_of_le Nat.lt_log2_self (Nat.pow_le_pow_right (by decide) ?_)
    unfold gapExponent
    omega
  refine ⟨Nat.lt_of_mul_lt_mul_right hupper, ?_⟩
  by_cases hg : gapExponent steps = 0
  · exact .inl hg
  · have hne : steps ≠ 0 := by
      rintro rfl
      simp [gapExponent] at hg
    have hlower : 2 ^ 52 * 2 ^ gapExponent steps ≤ m * 2 ^ gapExponent steps := by
      rw [← hm, ← Nat.pow_add]
      refine (Nat.le_log2 hne).1 ?_
      unfold gapExponent at hg ⊢
      omega
    exact .inr (Nat.le_of_mul_le_mul_right hlower hgap)

/-- A quotient in the range of a gap has that gap. -/
theorem gapExponent_div_eq {num den g : Nat} (hden : 0 < den) (hlt : num < 2 ^ 53 * (den * 2 ^ g))
    (hge : g = 0 ∨ 2 ^ 52 * (den * 2 ^ g) ≤ num) : gapExponent (num / den) = g := by
  have hscale (k : Nat) : 2 ^ (k + g) * den = 2 ^ k * (den * 2 ^ g) := by rw [Nat.pow_add]; ring
  refine gapExponent_eq ?_ (hge.imp_right fun hle => ?_)
  · rw [Nat.div_lt_iff_lt_mul hden, hscale]
    exact hlt
  · rw [Nat.le_div_iff_mul_le hden, hscale]
    exact hle

section
variable {steps m : Nat} (hm : steps = m * 2 ^ gapExponent steps)
include hm

theorem significand_pos (hpos : 0 < steps) : 0 < m := by
  refine Nat.pos_of_ne_zero ?_
  rintro rfl
  rw [Nat.zero_mul] at hm
  omega

theorem gap_le (hpos : 0 < steps) : 2 ^ gapExponent steps ≤ steps := by
  conv => rhs; rw [hm]
  exact Nat.le_mul_of_pos_left _ (significand_pos hm hpos)

namespace Number

/-- The ends of the interval of a number, in terms of its significand and gap. -/
theorem roundingInterval_eq :
    roundingInterval steps =
      ⟨4 * steps,
        4 * steps - (if m = 2 ^ 52 ∧ 1 < 2 ^ gapExponent steps then 2 ^ gapExponent steps
          else 2 * 2 ^ gapExponent steps),
        4 * steps + 2 * 2 ^ gapExponent steps, m % 2 = 0⟩ := by
  have hdiv : steps / 2 ^ gapExponent steps = m := by
    conv => lhs; arg 1; rw [hm]
    exact Nat.mul_div_cancel _ (Nat.two_pow_pos _)
  simp only [roundingInterval, Nat.pow_eq, hdiv]

/-- The numbers of an interval are at most half a gap away, or a quarter below a power of two, and
the ends belong to even significands only. -/
theorem bounds_of_holds {num den : Nat} (hpos : 0 < steps) (hden : 0 < den)
    (h : (roundingInterval steps).holds (4 * num) den = true) :
    2 * m * (den * 2 ^ gapExponent steps) ≤ 2 * num + den * 2 ^ gapExponent steps ∧
      2 * num ≤ 2 * m * (den * 2 ^ gapExponent steps) + den * 2 ^ gapExponent steps ∧
      (m % 2 = 1 →
        2 * m * (den * 2 ^ gapExponent steps) < 2 * num + den * 2 ^ gapExponent steps ∧
        2 * num < 2 * m * (den * 2 ^ gapExponent steps) + den * 2 ^ gapExponent steps) ∧
      (m = 2 ^ 52 → gapExponent steps ≠ 0 →
        4 * m * (den * 2 ^ gapExponent steps) ≤ 4 * num + den * 2 ^ gapExponent steps) := by
  have hgap : 0 < 2 ^ gapExponent steps := Nat.two_pow_pos _
  have hle := gap_le hm hpos
  have hone : gapExponent steps ≠ 0 → 1 < 2 ^ gapExponent steps := Nat.one_lt_two_pow
  rw [roundingInterval_eq hm] at h
  generalize 2 ^ gapExponent steps = gap at *
  have hunit : 0 < den * gap := Nat.mul_pos hden hgap
  -- All ends are multiples of the gap, and so of one unit once the denominator is cleared.
  have hmul (k : Nat) : k * gap * den = k * (den * gap) := by ring
  have hsteps : 4 * steps * den = 4 * (m * (den * gap)) := by rw [hm]; ring
  have hmunit (k : Nat) : k * m * (den * gap) = k * (m * (den * gap)) := Nat.mul_assoc ..
  have hsub (k : Nat) (hk : k * gap ≤ 4 * steps) :
      (4 * steps - k * gap) * den + k * (den * gap) = 4 * (m * (den * gap)) := by
    rw [← hmul, ← Nat.add_mul, Nat.sub_add_cancel hk, hsteps]
  have hsum : (4 * steps + 2 * gap) * den = 4 * (m * (den * gap)) + 2 * (den * gap) := by
    rw [Nat.add_mul, hsteps, hmul]
  rw [hmunit, hmunit]
  generalize m * (den * gap) = middle at *
  generalize den * gap = unit at *
  unfold RoundingInterval.holds at h
  dsimp only at h
  by_cases hpower : m = 2 ^ 52 ∧ 1 < gap
  · have hsubgap := hsub 1 (by omega)
    rw [if_pos hpower] at h
    have heven : m % 2 = 0 := by
      rw [hpower.1]
      norm_num
    rw [Nat.one_mul] at hsubgap
    simp only [heven, decide_true, if_true, Bool.and_eq_true, decide_eq_true_eq, hsum] at h
    refine ⟨by omega, by omega, by omega, fun _ _ => by omega⟩
  · have hsubgap := hsub 2 (by omega)
    rw [if_neg hpower] at h
    have hnot (h52 : m = 2 ^ 52) : ¬gapExponent steps ≠ 0 := fun hne => hpower ⟨h52, hone hne⟩
    rcases Nat.mod_two_eq_zero_or_one m with heven | hodd
    · simp only [heven, decide_true, if_true, Bool.and_eq_true, decide_eq_true_eq, hsum] at h
      exact ⟨by omega, by omega, by omega, fun h52 hne => absurd hne (hnot h52)⟩
    · simp only [hodd, Nat.one_ne_zero, decide_false, Bool.false_eq_true, if_false,
        Bool.and_eq_true, decide_eq_true_eq, hsum] at h
      exact ⟨by omega, by omega, fun _ => by omega, fun h52 hne => absurd hne (hnot h52)⟩

end Number
end

namespace Real64

open Number

/-- What lies in the interval of a number rounds to it. -/
theorem ofSteps_of_holds (negative : Bool) {steps num den : Nat} (hfits : Fits steps)
    (hpos : 0 < steps) (hden : 0 < den) (h : (roundingInterval steps).holds (4 * num) den = true) :
    ofSteps negative num den = .finite negative steps hfits := by
  obtain ⟨m, hm, hupper, hlower⟩ := hfits.exists_significand
  obtain ⟨hlow, hhigh, hodd, hquarter⟩ := bounds_of_holds hm hpos hden h
  generalize gapExponent steps = g at *
  suffices hround : roundHalfEven num (den * 2 ^ gapExponent (num / den)) *
      2 ^ gapExponent (num / den) = steps by
    simp only [ofSteps, Nat.pow_eq, hround, dif_pos hfits.1]
  have hunit (k : Nat) : 0 < den * 2 ^ k := Nat.mul_pos hden (Nat.two_pow_pos k)
  have hbelow : num < 2 ^ 53 * (den * 2 ^ g) := by
    have hspace : (m + 1) * (den * 2 ^ g) ≤ 2 ^ 53 * (den * 2 ^ g) :=
      Nat.mul_le_mul_right _ hupper
    have := hunit g
    linarith
  by_cases hcase : g = 0 ∨ 2 ^ 52 * (den * 2 ^ g) ≤ num
  · -- the quotient has the gap of the number
    have hround : roundHalfEven num (den * 2 ^ g) = m := by
      refine roundHalfEven_eq (hunit g) hlow hhigh fun hend => ?_
      by_contra hne
      have hstrict := hodd (by omega)
      omega
    rw [gapExponent_div_eq hden hbelow hcase, hround, ← hm]
  · -- just below a power of two the gap is half as wide
    rw [not_or, Nat.not_le] at hcase
    obtain ⟨hg, hnum⟩ := hcase
    have hm52 : m = 2 ^ 52 := by
      have hge := hlower.resolve_left hg
      by_contra hne
      have hmore : (2 ^ 52 + 1) * (den * 2 ^ g) ≤ m * (den * 2 ^ g) :=
        Nat.mul_le_mul_right _ (by omega)
      linarith
    have hquarter := hquarter hm52 hg
    obtain ⟨k, rfl⟩ : ∃ k, g = k + 1 := ⟨g - 1, by omega⟩
    subst hm52
    have hhalf : den * 2 ^ (k + 1) = 2 * (den * 2 ^ k) := by rw [Nat.pow_succ]; ring
    rw [hhalf] at hnum hquarter
    have hexp : gapExponent (num / den) = k :=
      gapExponent_div_eq hden (by linarith) (.inr (by linarith))
    have hround : roundHalfEven num (den * 2 ^ k) = 2 ^ 53 :=
      roundHalfEven_eq (hunit k) (by linarith) (by linarith) fun _ => by decide
    rw [hexp, hround, hm, Nat.pow_succ]
    ring

end Real64

namespace Number

/-! ## Values of decimals -/

def Decimal.value (d : Decimal) : ℚ := d.digits * 10 ^ d.exponent

/-- Whether a number of quarter steps lies in an interval. -/
def RoundingInterval.HoldsAt (i : RoundingInterval) (x : ℚ) : Prop :=
  if i.closed then (i.low : ℚ) ≤ x ∧ x ≤ i.high else (i.low : ℚ) < x ∧ x < i.high

theorem RoundingInterval.holds_iff {i : RoundingInterval} {num den : Nat} (hden : 0 < den) :
    i.holds num den = true ↔ i.HoldsAt (num / den) := by
  have hden' : (0 : ℚ) < den := by exact_mod_cast hden
  unfold holds HoldsAt
  rw [le_div_iff₀ hden', div_le_iff₀ hden', lt_div_iff₀ hden', div_lt_iff₀ hden']
  split
  · rw [Bool.and_eq_true, decide_eq_true_eq, decide_eq_true_eq]
    norm_cast
  · rw [Bool.and_eq_true, decide_eq_true_eq, decide_eq_true_eq]
    norm_cast

/-- A power of ten as the quotient of two whole ones. -/
theorem ten_pow_div (e : Int) :
    ((10 ^ e.toNat : Nat) : ℚ) / ((10 ^ (-e).toNat : Nat) : ℚ) = 10 ^ e := by
  rcases Int.le_total 0 e with he | he
  · obtain ⟨n, rfl⟩ := Int.eq_ofNat_of_zero_le he
    have hneg : (-(n : Int)).toNat = 0 := by omega
    rw [hneg, Int.toNat_natCast]
    push_cast
    rw [zpow_natCast, div_one]
  · obtain ⟨n, hn⟩ := Int.eq_ofNat_of_zero_le (Int.neg_nonneg.2 he)
    obtain rfl : e = -(n : Int) := by omega
    have hneg : (-(n : Int)).toNat = 0 := by omega
    rw [hneg, Int.neg_neg, Int.toNat_natCast]
    push_cast
    rw [zpow_neg, zpow_natCast, one_div]

/-- A multiple of a power of ten as a quotient of quarter steps. -/
theorem value_mul_eq_div (digits unit : Nat) (e : Int) :
    (⟨digits, e⟩ : Decimal).value * unit =
      ((digits * (unit * 10 ^ e.toNat) : Nat) : ℚ) / ((10 ^ (-e).toNat : Nat) : ℚ) := by
  rw [Decimal.value, ← ten_pow_div e]
  push_cast
  ring

theorem holdsAt_bounds {steps : Nat} (hfits : Fits steps) (hpos : 0 < steps) {x : ℚ}
    (h : (roundingInterval steps).HoldsAt x) : 2 * (steps : ℚ) ≤ x ∧ x ≤ 6 * steps := by
  obtain ⟨m, hm, -, -⟩ := hfits.exists_significand
  have hle := gap_le hm hpos
  rw [roundingInterval_eq hm] at h
  generalize 2 ^ gapExponent steps = gap at *
  have hends {low high : Nat} {closed : Bool} (hlow : 2 * steps ≤ low) (hhigh : high ≤ 6 * steps)
      (hx : (⟨4 * steps, low, high, closed⟩ : RoundingInterval).HoldsAt x) :
      2 * (steps : ℚ) ≤ x ∧ x ≤ 6 * steps := by
    have hlow' : (2 * steps : ℚ) ≤ low := by exact_mod_cast hlow
    have hhigh' : (high : ℚ) ≤ 6 * steps := by exact_mod_cast hhigh
    unfold RoundingInterval.HoldsAt at hx
    dsimp only at hx
    split at hx
    · exact ⟨hlow'.trans hx.1, hx.2.trans hhigh'⟩
    · exact ⟨hlow'.trans hx.1.le, hx.2.le.trans hhigh'⟩
  refine hends ?_ (by omega) h
  split <;> omega

/-! ## Lengths -/

theorem pow_length_bounds {n : Nat} (hn : 0 < n) :
    10 ^ ((Nat.toDigits 10 n).length - 1) ≤ n ∧ n < 10 ^ (Nat.toDigits 10 n).length := by
  have hpos : 0 < (Nat.toDigits 10 n).length := Nat.length_toDigits_pos
  refine ⟨?_, (Nat.length_toDigits_le_iff (by decide) hpos).1 le_rfl⟩
  by_cases hone : (Nat.toDigits 10 n).length - 1 = 0
  · rw [hone, Nat.pow_zero]
    exact hn
  · have hnot := mt (Nat.length_toDigits_le_iff (b := 10) (n := n) (by decide)
      (Nat.pos_of_ne_zero hone)).2 (by omega)
    exact Nat.le_of_not_lt hnot

theorem unitSteps_lt_ten_pow : 2 * unitSteps < 10 ^ 400 := by
  unfold unitSteps stepExponent
  decide +kernel

theorem stepLimit_lt_ten_pow : 6 * stepLimit < 10 ^ 399 * (4 * unitSteps) := by
  unfold stepLimit unitSteps stepExponent
  decide +kernel

/-- The digits bound a decimal by powers of ten. -/
theorem value_bounds {digits : Nat} (e : Int) (hdigits : 0 < digits) :
    (10 : ℚ) ^ ((Nat.toDigits 10 digits).length + e - 1) ≤ (⟨digits, e⟩ : Decimal).value ∧
      (⟨digits, e⟩ : Decimal).value ≤ 10 ^ ((Nat.toDigits 10 digits).length + e) := by
  obtain ⟨hge, hlt⟩ := pow_length_bounds hdigits
  have hlength : 0 < (Nat.toDigits 10 digits).length := Nat.length_toDigits_pos
  generalize (Nat.toDigits 10 digits).length = n at *
  have hlower : (10 : ℚ) ^ ((n - 1 : Nat) : Int) ≤ digits := by exact_mod_cast hge
  have hupper : (digits : ℚ) ≤ 10 ^ (n : Int) := by exact_mod_cast hlt.le
  have hexp : (n : Int) + e - 1 = ((n - 1 : Nat) : Int) + e := by omega
  rw [Decimal.value, hexp, zpow_add₀ (by norm_num), zpow_add₀ (by norm_num)]
  constructor
  · gcongr
  · gcongr

/-- A decimal in the interval of a number is not so small or so large that it is read without
rounding. -/
theorem exponent_bounds {steps digits : Nat} {e : Int} (hfits : Fits steps) (hpos : 0 < steps)
    (h : (roundingInterval steps).HoldsAt ((⟨digits, e⟩ : Decimal).value * unitQuarters)) :
    digits ≠ 0 ∧ -400 ≤ ((Nat.toDigits 10 digits).length : Int) + e ∧
      ((Nat.toDigits 10 digits).length : Int) + e ≤ 400 := by
  obtain ⟨hlow, hhigh⟩ := holdsAt_bounds hfits hpos h
  have hsteps : (1 : ℚ) ≤ steps := by exact_mod_cast hpos
  have hlimit : (steps : ℚ) < stepLimit := by exact_mod_cast hfits.1
  have hsmall : 2 * (unitSteps : ℚ) < 10 ^ (400 : Int) := by exact_mod_cast unitSteps_lt_ten_pow
  have hlarge : 6 * (stepLimit : ℚ) < 10 ^ (399 : Int) * (4 * unitSteps) := by
    exact_mod_cast stepLimit_lt_ten_pow
  have hunit : (0 : ℚ) < unitSteps := by
    exact_mod_cast unitSteps_pos
  have hquarters : (unitQuarters : ℚ) = 4 * unitSteps := by
    unfold unitQuarters
    push_cast
    ring
  rw [hquarters] at hlow hhigh
  generalize (unitSteps : ℚ) = unit at *
  generalize (stepLimit : ℚ) = limit at *
  have hdigits : digits ≠ 0 := by
    rintro rfl
    rw [Decimal.value, Nat.cast_zero, zero_mul, zero_mul] at hlow
    linarith
  obtain ⟨hge, hle⟩ := value_bounds e (Nat.pos_of_ne_zero hdigits)
  generalize (⟨digits, e⟩ : Decimal).value = value at *
  generalize ((Nat.toDigits 10 digits).length : Int) + e = exponent at *
  refine ⟨hdigits, ?_, ?_⟩
  · by_contra hnot
    have hsmaller : (10 : ℚ) ^ exponent ≤ 10 ^ (-400 : Int) :=
      zpow_le_zpow_right₀ (by norm_num) (by omega)
    have hone : (10 : ℚ) ^ (-400 : Int) * 10 ^ (400 : Int) = 1 := by
      rw [← zpow_add₀ (by norm_num)]
      norm_num
    have hpow : (0 : ℚ) < 10 ^ (-400 : Int) := zpow_pos (by norm_num) _
    have htiny : (10 : ℚ) ^ (-400 : Int) * (4 * unit) < 2 := by
      calc (10 : ℚ) ^ (-400 : Int) * (4 * unit)
          < 10 ^ (-400 : Int) * (2 * 10 ^ (400 : Int)) := by
            refine mul_lt_mul_of_pos_left ?_ hpow
            linarith
        _ = 2 * (10 ^ (-400 : Int) * 10 ^ (400 : Int)) := by ring
        _ = 2 := by rw [hone, mul_one]
    have hscaled : value * (4 * unit) ≤ 10 ^ (-400 : Int) * (4 * unit) := by
      gcongr
      exact hle.trans hsmaller
    linarith
  · by_contra hnot
    have hlarger : (10 : ℚ) ^ (399 : Int) ≤ 10 ^ (exponent - 1) :=
      zpow_le_zpow_right₀ (by norm_num) (by omega)
    have hscaled : (10 : ℚ) ^ (399 : Int) * (4 * unit) ≤ value * (4 * unit) := by
      gcongr
      exact hlarger.trans hge
    linarith

/-- A decimal in the interval of a number is read as that number. -/
theorem realOfDecimal_of_holdsAt (negative : Bool) {steps digits : Nat} {e : Int}
    (hfits : Fits steps) (hpos : 0 < steps)
    (h : (roundingInterval steps).HoldsAt ((⟨digits, e⟩ : Decimal).value * unitQuarters)) :
    realOfDecimal negative digits e = .finite negative steps hfits := by
  obtain ⟨hdigits, hlow, hhigh⟩ := exponent_bounds hfits hpos h
  have hguard : ¬(digits = 0 ∨ ((Nat.toDigits 10 digits).length : Int) + e < -400) := by
    rintro (hzero | hlt)
    · exact hdigits hzero
    · omega
  have hden : 0 < 10 ^ (-e).toNat := Nat.pow_pos (by decide)
  rw [value_mul_eq_div, ← RoundingInterval.holds_iff hden] at h
  have hnum : digits * (unitQuarters * 10 ^ e.toNat) = 4 * (digits * 10 ^ e.toNat * unitSteps) := by
    unfold unitQuarters
    ring
  rw [hnum] at h
  have hround := Real64.ofSteps_of_holds negative hfits hpos hden h
  unfold realOfDecimal
  dsimp only
  rw [if_neg hguard, if_neg (by omega)]
  unfold Real64.ofRatio
  rw [← hround]
  split
  · next he =>
    have hneg : (-e).toNat = 0 := by omega
    rw [hneg, Nat.pow_eq, Nat.pow_zero]
  · next he =>
    have hnonneg : e.toNat = 0 := by omega
    rw [hnonneg, Nat.pow_eq, Nat.pow_zero, Nat.mul_one]

/-! ## The search -/

section
variable {i : RoundingInterval} {tie : Tie}

/-- What a grid offers lies in the interval. -/
theorem holdsAt_of_onGrid?_eq_some {e : Int} {k : Nat} (h : onGrid? i tie e = some k) :
    i.HoldsAt ((⟨k, e⟩ : Decimal).value * unitQuarters) := by
  have hden : 0 < 10 ^ (-e).toNat := Nat.pow_pos (by decide)
  rw [value_mul_eq_div, ← RoundingInterval.holds_iff hden]
  simp only [onGrid?, Nat.pow_eq] at h
  generalize unitQuarters * 10 ^ e.toNat = grid at *
  generalize 10 ^ (-e).toNat = scale at *
  generalize i.value * scale / grid = floor at *
  split at h
  · next hfloor hnext =>
    split at h
    · rwa [← Option.some.inj h]
    · split at h
      · rwa [← Option.some.inj h]
      · cases tie with
        | up => rwa [← Option.some.inj h]
        | toEven =>
          rw [← Option.some.inj h]
          rcases Nat.mod_two_eq_zero_or_one floor with heven | hodd
          · rwa [heven]
          · rwa [hodd]
  · next hfloor _ => rwa [← Option.some.inj h]
  · next _ hnext => rwa [← Option.some.inj h]
  · contradiction

/-- A grid offers something when the multiple above the number lies in the interval. -/
theorem onGrid?_isSome {e : Int}
    (h : i.holds ((i.value * 10 ^ (-e).toNat / (unitQuarters * 10 ^ e.toNat) + 1) *
      (unitQuarters * 10 ^ e.toNat)) (10 ^ (-e).toNat) = true) :
    (onGrid? i tie e).isSome = true := by
  simp only [onGrid?, Nat.pow_eq]
  generalize unitQuarters * 10 ^ e.toNat = grid at *
  generalize 10 ^ (-e).toNat = scale at *
  rw [h]
  cases i.holds (i.value * scale / grid * grid) scale with
  | false => rfl
  | true =>
    dsimp only
    split
    · rfl
    · split
      · rfl
      · cases tie <;> rfl

/-- The search ends on a grid that offers something, if there is one within reach. -/
theorem firstOnGrid_eq {e : Int} {fuel : Nat}
    (h : ∃ n < fuel, (onGrid? i tie (e - n)).isSome = true) :
    ∃ k e', firstOnGrid i tie e fuel = ⟨k, e'⟩ ∧ onGrid? i tie e' = some k := by
  induction fuel generalizing e with
  | zero =>
    obtain ⟨n, hn, -⟩ := h
    exact absurd hn (Nat.not_lt_zero n)
  | succ fuel ih =>
    rw [firstOnGrid]
    cases hgrid : onGrid? i tie e with
    | some k => exact ⟨k, e, rfl, hgrid⟩
    | none =>
      refine ih ?_
      obtain ⟨n, hn, hsome⟩ := h
      cases n with
      | zero =>
        rw [Nat.cast_zero, Int.sub_zero, hgrid] at hsome
        contradiction
      | succ n =>
        refine ⟨n, by omega, ?_⟩
        have heq : e - 1 - (n : Int) = e - ((n + 1 : Nat) : Int) := by omega
        rw [heq]
        exact hsome

end

/-- The leading exponent does not pass the number. -/
theorem ten_pow_leadingExponent_le {steps : Nat} (hpos : 0 < steps) :
    ∃ n : Nat, leadingExponent steps = (n : Int) - 400 ∧ 10 ^ n * unitSteps ≤ steps * 10 ^ 400 := by
  have hunit := unitSteps_pos
  have hsmall := unitSteps_lt_ten_pow
  have hquotient : 0 < steps * 10 ^ 400 / unitSteps := by
    refine Nat.div_pos ?_ hunit
    have hle : unitSteps ≤ 2 * unitSteps := Nat.le_mul_of_pos_left _ (by decide)
    exact (hle.trans hsmall.le).trans (Nat.le_mul_of_pos_left _ hpos)
  obtain ⟨hge, -⟩ := pow_length_bounds hquotient
  have hlength : 0 < (Nat.toDigits 10 (steps * 10 ^ 400 / unitSteps)).length :=
    Nat.length_toDigits_pos
  refine ⟨(Nat.toDigits 10 (steps * 10 ^ 400 / unitSteps)).length - 1, ?_, ?_⟩
  · unfold leadingExponent
    rw [Nat.pow_eq]
    generalize (Nat.toDigits 10 (steps * 10 ^ 400 / unitSteps)).length = n at hlength
    clear hquotient hsmall hge
    omega
  · exact (Nat.le_div_iff_mul_le hunit).1 hge

/-- Seventeen digits after the first, the grid is finer than half a gap. -/
theorem grid_lt_gap {steps : Nat} (hfits : Fits steps) (hpos : 0 < steps) :
    unitQuarters * 10 ^ (leadingExponent steps - 17).toNat <
      2 * 2 ^ gapExponent steps * 10 ^ (-(leadingExponent steps - 17)).toNat := by
  obtain ⟨m, hm, hupper, -⟩ := hfits.exists_significand
  obtain ⟨n, hleading, hpow⟩ := ten_pow_leadingExponent_le hpos
  rw [hleading]
  have hexp : 417 + ((n : Int) - 400 - 17).toNat = n + (-((n : Int) - 400 - 17)).toNat := by
    clear hpow
    omega
  generalize (n : Int) - 400 - 17 = e at *
  have hscale : 0 < 10 ^ (-e).toNat := Nat.pow_pos (by decide)
  have hgap : 0 < 2 ^ gapExponent steps := Nat.two_pow_pos _
  have hsteps : steps < 2 ^ 53 * 2 ^ gapExponent steps := by
    conv => lhs; rw [hm]
    exact Nat.mul_lt_mul_of_pos_right hupper hgap
  have hconst : 4 * 2 ^ 53 * 10 ^ 400 ≤ 10 ^ 417 * 2 := by
    have hpow : 10 ^ 417 = 10 ^ 17 * 10 ^ 400 := by rw [← Nat.pow_add]
    generalize 10 ^ 400 = big at *
    generalize 10 ^ 417 = bigger at *
    omega
  refine Nat.lt_of_mul_lt_mul_left (a := 10 ^ 417) ?_
  calc 10 ^ 417 * (unitQuarters * 10 ^ e.toNat)
      = unitQuarters * 10 ^ (417 + e.toNat) := by rw [Nat.mul_left_comm, ← Nat.pow_add]
    _ = 4 * (10 ^ n * unitSteps) * 10 ^ (-e).toNat := by
      rw [hexp, Nat.pow_add, unitQuarters]
      ring
    _ ≤ 4 * (steps * 10 ^ 400) * 10 ^ (-e).toNat := by gcongr
    _ < 4 * (2 ^ 53 * 2 ^ gapExponent steps * 10 ^ 400) * 10 ^ (-e).toNat := by gcongr
    _ = 4 * 2 ^ 53 * 10 ^ 400 * (2 ^ gapExponent steps * 10 ^ (-e).toNat) := by ring
    _ ≤ 10 ^ 417 * 2 * (2 ^ gapExponent steps * 10 ^ (-e).toNat) := by gcongr
    _ = 10 ^ 417 * (2 * 2 ^ gapExponent steps * 10 ^ (-e).toNat) := by ring

/-- Seventeen digits after the first are enough: the next multiple on the grid is in the
interval. -/
theorem onGrid?_leadingExponent_isSome {steps : Nat} {tie : Tie} (hfits : Fits steps)
    (hpos : 0 < steps) :
    (onGrid? (roundingInterval steps) tie (leadingExponent steps - 17)).isSome = true := by
  obtain ⟨m, hm, -, -⟩ := hfits.exists_significand
  have hfine := grid_lt_gap hfits hpos
  generalize leadingExponent steps - 17 = e at *
  have hgrid : 0 < unitQuarters * 10 ^ e.toNat :=
    Nat.mul_pos (Nat.mul_pos (by decide) unitSteps_pos) (Nat.pow_pos (by decide))
  refine onGrid?_isSome ?_
  rw [roundingInterval_eq hm]
  generalize unitQuarters * 10 ^ e.toNat = grid at *
  generalize 10 ^ (-e).toNat = scale at *
  generalize 2 ^ gapExponent steps = gap at *
  dsimp only
  have hbelow := Nat.lt_mul_div_succ (4 * steps * scale) hgrid
  have habove := Nat.mul_div_le (4 * steps * scale) grid
  generalize 4 * steps * scale / grid = floor at *
  have hcomm : (floor + 1) * grid = grid * floor + grid := by ring
  have hhigh : (floor + 1) * grid < (4 * steps + 2 * gap) * scale := by
    have hsum : (4 * steps + 2 * gap) * scale = 4 * steps * scale + 2 * gap * scale :=
      Nat.add_mul ..
    omega
  have hlow (below : Nat) : (4 * steps - below) * scale < (floor + 1) * grid := by
    refine Nat.lt_of_le_of_lt (Nat.mul_le_mul_right scale (Nat.sub_le ..)) ?_
    rw [Nat.mul_comm (floor + 1)]
    exact hbelow
  unfold RoundingInterval.holds
  dsimp only
  split
  · rw [Bool.and_eq_true, decide_eq_true_eq, decide_eq_true_eq]
    exact ⟨(hlow _).le, hhigh.le⟩
  · rw [Bool.and_eq_true, decide_eq_true_eq, decide_eq_true_eq]
    exact ⟨hlow _, hhigh⟩

theorem value_strip (d : Decimal) (fuel : Nat) : (d.strip fuel).value = d.value := by
  induction fuel generalizing d with
  | zero => rfl
  | succ fuel ih =>
    rw [Decimal.strip]
    split
    · next h =>
      rw [ih]
      have hdigits : (d.digits : ℚ) = 10 * ((d.digits / 10 : Nat) : ℚ) := by
        have : d.digits = 10 * (d.digits / 10) := by omega
        exact_mod_cast this
      rw [Decimal.value, Decimal.value, zpow_add₀ (by norm_num), zpow_one, hdigits]
      push_cast
      ring
    · rfl

/-- The shortest decimal of a number lies in its interval. -/
theorem holdsAt_shortest (tie : Tie) {steps : Nat} (hfits : Fits steps) (hpos : 0 < steps) :
    (roundingInterval steps).HoldsAt ((shortest tie steps).value * unitQuarters) := by
  have hsome : ∃ n : Nat, n < 18 ∧
      (onGrid? (roundingInterval steps) tie (leadingExponent steps - n)).isSome = true :=
    ⟨17, by decide, onGrid?_leadingExponent_isSome hfits hpos⟩
  obtain ⟨k, e, hfirst, hgrid⟩ := firstOnGrid_eq hsome
  rw [shortest, value_strip, hfirst]
  exact holdsAt_of_onGrid?_eq_some hgrid

end Number
end TagQuery
