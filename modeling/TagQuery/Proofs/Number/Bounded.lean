import TagQuery.Proofs.Number.Real64

/-!
# Bounds on binary64 numbers

A quotient of at most a power of two is not rounded past that power. So sums, products and quotients
of numbers of known size are finite, and of known size again.

## Main definitions

- `Real64.Within`: a finite number of at most a power of two.
- `Real64.IsPortion`: a finite number from zero to one.

## Main statements

- `Real64.exists_ofSteps`: rounding does not pass a power of two.
- `Real64.Within.add`, `Real64.Within.mul`, `Real64.Within.div`: the size of results.
- `Real64.isPortion_div`: a part of a whole number is a portion.
-/

namespace TagQuery.Real64

/-! ## Rounding -/

theorem roundHalfEven_le_of_le {num den bound : Nat} (hden : 0 < den) (h : num ≤ den * bound) :
    roundHalfEven num den ≤ bound := by
  rcases Nat.lt_or_eq_of_le h with hlt | rfl
  · have hquotient : num / den < bound := Nat.div_lt_of_lt_mul hlt
    have hround := roundHalfEven_le num den
    omega
  · simp [roundHalfEven, hden]

theorem gapExponent_le {q k : Nat} (h : q ≤ 2 ^ k) : gapExponent q ≤ k := by
  by_cases hq : q = 0
  · simp [hq, gapExponent]
  · have hlog : q.log2 < k + 1 := (Nat.log2_lt hq).2 (by rw [Nat.pow_succ]; omega)
    unfold gapExponent
    omega

/-- Rounding does not pass a power of two in the range. -/
theorem exists_ofSteps (negative : Bool) {num den k : Nat} (hden : 0 < den)
    (hk : k < stepExponent + 1024) (h : num ≤ den * 2 ^ k) :
    ∃ steps hfits, ofSteps negative num den = .finite negative steps hfits ∧ steps ≤ 2 ^ k := by
  obtain ⟨g, hg⟩ : ∃ g, g = gapExponent (num / den) := ⟨_, rfl⟩
  have hgap : g ≤ k := hg ▸ gapExponent_le (Nat.div_le_of_le_mul h)
  -- the power is a multiple of the gap, so that rounding to such multiples stops there
  have hsplit : 2 ^ k = 2 ^ g * 2 ^ (k - g) := by rw [← Nat.pow_add, Nat.add_sub_cancel' hgap]
  have hround : roundHalfEven num (den * 2 ^ g) ≤ 2 ^ (k - g) := by
    refine roundHalfEven_le_of_le (Nat.mul_pos hden (Nat.two_pow_pos g)) ?_
    rwa [Nat.mul_assoc, ← hsplit]
  have hsteps : roundHalfEven num (den * 2 ^ g) * 2 ^ g ≤ 2 ^ k := by
    rw [hsplit, Nat.mul_comm (2 ^ g)]
    exact Nat.mul_le_mul_right _ hround
  have hlimit : 2 ^ k < stepLimit := by
    rw [stepLimit_eq]
    exact Nat.pow_lt_pow_right (by decide) hk
  subst hg
  unfold ofSteps
  dsimp only
  split
  · next hin =>
    have hbits := Nat.le_trans (roundHalfEven_le _ _) (div_gap_lt num den)
    exact ⟨_, ⟨hin, dvd_of_le_pow hbits⟩, rfl, hsteps⟩
  · next hover => exact absurd (Nat.lt_of_le_of_lt hsteps hlimit) hover

theorem ofSteps_zero (negative : Bool) {den : Nat} (hden : 0 < den) :
    ofSteps negative 0 den = zero negative := by
  have hfits : Fits (0 / den) := (Nat.zero_div den).symm ▸ ⟨stepLimit_pos, Nat.dvd_zero _⟩
  rw [ofSteps_of_dvd negative hden (Nat.dvd_zero den) hfits]
  simp only [Nat.zero_div, zero]

/-! ## Sizes -/

/-- A finite number of at most `2 ^ k`, whatever its sign. -/
def Within (k : Nat) (x : Real64) : Prop :=
  ∃ negative steps hfits, x = .finite negative steps hfits ∧ steps ≤ 2 ^ (stepExponent + k)

variable {x y : Real64} {k l : Nat}

theorem Within.isFinite (h : x.Within k) : x.isFinite = true := by
  obtain ⟨_, _, _, rfl, -⟩ := h
  rfl

theorem Within.mono (h : x.Within k) (hkl : k ≤ l) : x.Within l := by
  obtain ⟨negative, steps, hfits, rfl, hsteps⟩ := h
  refine ⟨negative, steps, hfits, rfl, Nat.le_trans hsteps ?_⟩
  exact Nat.pow_le_pow_right (by decide) (Nat.add_le_add_left hkl _)

/-- A rounded quotient is as large as its steps say. -/
theorem within_ofSteps (negative : Bool) {num den : Nat} (hden : 0 < den) (hk : k < 1024)
    (h : num ≤ den * 2 ^ (stepExponent + k)) : (ofSteps negative num den).Within k := by
  obtain ⟨steps, hfits, heq, hsteps⟩ := exists_ofSteps negative hden (by omega) h
  exact ⟨negative, steps, hfits, heq, hsteps⟩

theorem within_ofNat {n : Nat} (hk : k < 1024) (h : n ≤ 2 ^ k) : (ofNat n).Within k := by
  rw [ofNat, ofRatio]
  refine within_ofSteps false Nat.one_pos hk ?_
  rw [unitSteps_eq, Nat.one_mul, Nat.add_comm, Nat.pow_add]
  exact Nat.mul_le_mul_right _ h

theorem Within.add (hx : x.Within k) (hy : y.Within k) (hk : k + 1 < 1024) :
    (x.add y).Within (k + 1) := by
  obtain ⟨a, m, hm, rfl, hmk⟩ := hx
  obtain ⟨b, n, hn, rfl, hnk⟩ := hy
  have hsum : (signedSteps a m + signedSteps b n).natAbs ≤ 1 * 2 ^ (stepExponent + (k + 1)) := by
    have hpow : 2 ^ (stepExponent + (k + 1)) = 2 * 2 ^ (stepExponent + k) := by
      rw [← Nat.add_assoc, Nat.pow_succ, Nat.mul_comm]
    unfold signedSteps
    grind
  unfold add
  dsimp only
  split
  · exact ⟨_, 0, _, rfl, Nat.zero_le _⟩
  · exact within_ofSteps _ Nat.one_pos hk hsum

theorem Within.mul (hx : x.Within k) (hy : y.Within l) (hkl : k + l < 1024) :
    (x.mul y).Within (k + l) := by
  obtain ⟨a, m, hm, rfl, hmk⟩ := hx
  obtain ⟨b, n, hn, rfl, hnl⟩ := hy
  rw [Real64.mul]
  refine within_ofSteps _ unitSteps_pos hkl ?_
  calc m * n ≤ 2 ^ (stepExponent + k) * 2 ^ (stepExponent + l) := Nat.mul_le_mul hmk hnl
    _ = unitSteps * 2 ^ (stepExponent + (k + l)) := by
      rw [unitSteps_eq, ← Nat.pow_add, ← Nat.pow_add]
      congr 1
      omega

/-- A part of a whole number is not larger than the whole. -/
theorem Within.div (hx : x.Within k) (hk : k < 1024) {n : Nat} (hpos : 0 < n) (hn : n ≤ 2 ^ 53) :
    (x.div (ofNat n)).Within k := by
  obtain ⟨a, m, hm, rfl, hmk⟩ := hx
  have hden : 0 < n * unitSteps := Nat.mul_pos hpos unitSteps_pos
  rw [ofNat_eq_finite hn, Real64.div, if_neg (Nat.ne_of_gt hden)]
  refine within_ofSteps _ hden hk ?_
  calc m * unitSteps ≤ 2 ^ (stepExponent + k) * (n * unitSteps) :=
        Nat.mul_le_mul hmk (Nat.le_mul_of_pos_left _ hpos)
    _ = n * unitSteps * 2 ^ (stepExponent + k) := Nat.mul_comm _ _

/-! ## Numbers between others -/

/-- A finite number from zero to one. -/
def IsPortion (x : Real64) : Prop :=
  x.isFinite = true ∧ (zero false).ble x = true ∧ x.ble one = true

/-- A number from zero to a whole number is finite, and its sign counts for nothing but zero. -/
theorem exists_steps_of_ble {x : Real64} {n : Nat} (hn : n ≤ 2 ^ 53)
    (hlow : (zero false).ble x = true) (hhigh : x.ble (ofNat n) = true) :
    ∃ negative steps hfits, x = .finite negative steps hfits ∧ steps ≤ n * unitSteps ∧
      (negative = true → steps = 0) := by
  obtain ⟨_, place, hzero, hplace, hle⟩ := ble_iff.1 hlow
  obtain ⟨_, limit, hplace', hlimit, hle'⟩ := ble_iff.1 hhigh
  have hrange : n * unitSteps < stepLimit := (fits_mul_unitSteps hn).1
  rw [place?_zero, Option.some.injEq] at hzero
  rw [place?_ofNat hn, Option.some.injEq] at hlimit
  rw [hplace, Option.some.injEq] at hplace'
  subst hzero hlimit hplace'
  cases x with
  | nan => cases hplace
  | infinity negative =>
    have hend : signedSteps negative stepLimit = place := Option.some.inj hplace
    cases negative with
    | false =>
      rw [signedSteps_false] at hend
      omega
    | true =>
      rw [signedSteps_true] at hend
      omega
  | finite negative steps hfits =>
    have hsteps : signedSteps negative steps = place := Option.some.inj hplace
    refine ⟨negative, steps, hfits, rfl, ?_⟩
    cases negative with
    | false =>
      rw [signedSteps_false] at hsteps
      exact ⟨by omega, Bool.noConfusion⟩
    | true =>
      rw [signedSteps_true] at hsteps
      omega

theorem within_of_ble {x : Real64} {n k : Nat} (hn : n ≤ 2 ^ 53) (hk : n ≤ 2 ^ k)
    (hlow : (zero false).ble x = true) (hhigh : x.ble (ofNat n) = true) : x.Within k := by
  obtain ⟨negative, steps, hfits, rfl, hsteps, -⟩ := exists_steps_of_ble hn hlow hhigh
  refine ⟨negative, steps, hfits, rfl, Nat.le_trans hsteps ?_⟩
  rw [unitSteps_eq, Nat.add_comm, Nat.pow_add]
  exact Nat.mul_le_mul_right _ hk

theorem isPortion_zero (negative : Bool) : (zero negative).IsPortion := by
  refine ⟨rfl, ble_iff.2 ⟨0, 0, place?_zero _, place?_zero _, Int.le_refl 0⟩, ?_⟩
  exact ble_iff.2 ⟨0, _, place?_zero _, place?_one, Int.natCast_nonneg _⟩

/-- A part of a whole number is a portion. -/
theorem isPortion_div {x : Real64} {n : Nat} (hpos : 0 < n) (hn : n ≤ 2 ^ 53)
    (hlow : (zero false).ble x = true) (hhigh : x.ble (ofNat n) = true) :
    (x.div (ofNat n)).IsPortion := by
  obtain ⟨negative, m, hm, rfl, hmn, hsign⟩ := exists_steps_of_ble hn hlow hhigh
  have hden : 0 < n * unitSteps := Nat.mul_pos hpos unitSteps_pos
  rw [ofNat_eq_finite hn, Real64.div, if_neg (Nat.ne_of_gt hden), Bool.xor_false]
  cases negative with
  | true =>
    -- the negative zero is the only one with a sign
    obtain rfl := hsign rfl
    rw [Nat.zero_mul, ofSteps_zero true hden]
    exact isPortion_zero true
  | false =>
    have hnum : m * unitSteps ≤ n * unitSteps * 2 ^ stepExponent :=
      unitSteps_eq ▸ Nat.mul_le_mul_right _ hmn
    obtain ⟨steps, hfits, heq, hsteps⟩ :=
      exists_ofSteps false hden (Nat.lt_add_of_pos_right (by decide)) hnum
    rw [← unitSteps_eq] at hsteps
    rw [heq]
    refine ⟨rfl, ble_iff.2 ⟨0, steps, place?_zero false, rfl, Int.natCast_nonneg _⟩, ?_⟩
    exact ble_iff.2 ⟨steps, _, rfl, place?_one, Int.ofNat_le.2 hsteps⟩

end TagQuery.Real64
