import Mathlib.Tactic.SplitIfs
import TagQuery.Proofs.Number.Bounded

/-!
# Operations that keep the order of numbers

Rounding takes the greater of two quotients to the number that is not less. So products of numbers
without a sign with a positive number, their roundings to a whole number and their whole parts are
in the order of the numbers that they are made from, also where a result is past the range.

## Main definitions

- `Real64.Unsigned`: the numbers from zero on that have no sign.

## Main statements

- `Real64.ofSteps_ble`: rounding keeps the order of quotients.
- `Real64.Unsigned.mul_ble`, `Real64.Unsigned.round_ble`: operations keep the order.
- `Real64.Unsigned.toWord_le`: so does the whole part in 64 bits.
-/

namespace TagQuery.Real64

/-! ## Rounding -/

theorem div_le_roundHalfEven (num den : Nat) : num / den ≤ roundHalfEven num den := by
  unfold roundHalfEven
  dsimp only
  split
  · exact Nat.le_refl _
  · split <;> exact Nat.le_add_right _ _

theorem roundHalfEven_mono {num num' : Nat} (den : Nat) (h : num ≤ num') :
    roundHalfEven num den ≤ roundHalfEven num' den := by
  rcases Nat.lt_or_eq_of_le (Nat.div_le_div_right (c := den) h) with hlt | heq
  · -- the quotients differ, and rounding moves none past the next
    calc roundHalfEven num den ≤ num / den + 1 := roundHalfEven_le num den
      _ ≤ num' / den := hlt
      _ ≤ roundHalfEven num' den := div_le_roundHalfEven num' den
  · have hnum := Nat.div_add_mod num den
    have hnum' := Nat.div_add_mod num' den
    rw [← heq] at hnum'
    have hmod : num % den ≤ num' % den := by omega
    unfold roundHalfEven
    dsimp only
    rw [← heq]
    split_ifs <;> omega

theorem gapExponent_mono {q q' : Nat} (h : q ≤ q') : gapExponent q ≤ gapExponent q' := by
  by_cases hq : q = 0
  · simp [hq, gapExponent]
  · have hpow : 2 ^ q.log2 ≤ q' := Nat.le_trans (Nat.log2_self_le hq) h
    have hq' : q' ≠ 0 := by omega
    exact Nat.sub_le_sub_right ((Nat.le_log2 hq').2 hpow) 52

/-- The steps that a quotient of steps is rounded to, in the range or past it. -/
def roundedSteps (num den : Nat) : Nat :=
  roundHalfEven num (den * 2 ^ gapExponent (num / den)) * 2 ^ gapExponent (num / den)

theorem roundedSteps_le (num den : Nat) :
    roundedSteps num den ≤ 2 ^ (53 + gapExponent (num / den)) := by
  rw [Nat.pow_add]
  exact Nat.mul_le_mul_right _ (Nat.le_trans (roundHalfEven_le _ _) (div_gap_lt num den))

/-- With a gap of more than one step, a number has all of its 53 bits. -/
theorem le_roundedSteps {num den : Nat} (h : 0 < gapExponent (num / den)) :
    2 ^ (52 + gapExponent (num / den)) ≤ roundedSteps num den := by
  have hne : num / den ≠ 0 := by
    intro hzero
    simp [hzero, gapExponent] at h
  have hquotient : 2 ^ (52 + gapExponent (num / den)) ≤ num / den := by
    refine (Nat.le_log2 hne).1 ?_
    unfold gapExponent at h ⊢
    omega
  rw [Nat.pow_add] at hquotient ⊢
  unfold roundedSteps
  refine Nat.mul_le_mul_right _ (Nat.le_trans ?_ (div_le_roundHalfEven _ _))
  rw [← Nat.div_div_eq_div_mul]
  exact (Nat.le_div_iff_mul_le (Nat.two_pow_pos _)).2 hquotient

theorem roundedSteps_mono {num num' : Nat} (den : Nat) (h : num ≤ num') :
    roundedSteps num den ≤ roundedSteps num' den := by
  rcases Nat.lt_or_eq_of_le (gapExponent_mono (Nat.div_le_div_right (c := den) h)) with hlt | heq
  · -- a power of two lies between the numbers, and rounding passes it from neither side
    calc roundedSteps num den ≤ 2 ^ (53 + gapExponent (num / den)) := roundedSteps_le num den
      _ ≤ 2 ^ (52 + gapExponent (num' / den)) := Nat.pow_le_pow_right (by decide) (by omega)
      _ ≤ roundedSteps num' den := le_roundedSteps (by omega)
  · unfold roundedSteps
    rw [← heq]
    exact Nat.mul_le_mul_right _ (roundHalfEven_mono _ h)

theorem place?_ofSteps (num den : Nat) :
    (ofSteps false num den).place? = some ((min (roundedSteps num den) stepLimit : Nat) : Int) := by
  have hsteps : roundHalfEven num (den * Nat.pow 2 (gapExponent (num / den))) *
      Nat.pow 2 (gapExponent (num / den)) = roundedSteps num den := rfl
  unfold ofSteps
  dsimp only
  simp only [hsteps]
  split
  · next h => rw [place?, signedSteps_false, Nat.min_eq_left (Nat.le_of_lt h)]
  · next h => rw [place?, signedSteps_false, Nat.min_eq_right (Nat.le_of_not_lt h)]

/-- Rounding keeps the order of quotients. -/
theorem ofSteps_ble {num num' : Nat} (den : Nat) (h : num ≤ num') :
    (ofSteps false num den).ble (ofSteps false num' den) = true := by
  have hsteps := roundedSteps_mono den h
  refine ble_iff.2 ⟨_, _, place?_ofSteps num den, place?_ofSteps num' den, ?_⟩
  omega

theorem ofRatio_ble {num num' : Nat} (den : Nat) (h : num ≤ num') :
    (ofRatio false num den).ble (ofRatio false num' den) = true := by
  unfold ofRatio
  exact ofSteps_ble den (Nat.mul_le_mul_right unitSteps h)

theorem ofNat_ble {n n' : Nat} (h : n ≤ n') : (ofNat n).ble (ofNat n') = true := by
  unfold ofNat
  exact ofRatio_ble 1 h

/-! ## Numbers without a sign -/

inductive Unsigned : Real64 → Prop
  | infinity : Unsigned (.infinity false)
  | finite (steps : Nat) (hfits : Fits steps) : Unsigned (.finite false steps hfits)

theorem unsigned_ofSteps (num den : Nat) : Unsigned (ofSteps false num den) := by
  unfold ofSteps
  dsimp only
  split
  · exact .finite _ _
  · exact .infinity

theorem unsigned_ofRatio (num den : Nat) : Unsigned (ofRatio false num den) := by
  unfold ofRatio
  exact unsigned_ofSteps _ _

theorem unsigned_ofNat (n : Nat) : Unsigned (ofNat n) := by
  unfold ofNat
  exact unsigned_ofRatio _ _

theorem toWord_le_max (x : Real64) : x.toWord ≤ 2 ^ 64 - 1 := by
  cases x with
  | nan => exact Nat.zero_le _
  | infinity negative => cases negative <;> decide
  | finite negative steps hfits =>
    cases negative with
    | true => exact Nat.zero_le _
    | false => exact Nat.min_le_right _ _

namespace Unsigned

variable {x y : Real64} (hx : x.Unsigned) (hy : y.Unsigned)
include hx

theorem exists_place? : ∃ p : Nat, x.place? = some (p : Int) := by
  cases hx with
  | infinity => exact ⟨stepLimit, rfl⟩
  | finite steps hfits => exact ⟨steps, rfl⟩

theorem blt_zero : x.blt (.zero false) = false := by
  obtain ⟨p, hp⟩ := hx.exists_place?
  rw [← Bool.not_eq_true, blt_iff, hp, place?_zero]
  rintro ⟨a, b, ha, hb, hab⟩
  obtain rfl := Option.some.inj ha
  obtain rfl := Option.some.inj hb
  omega

theorem ble_infinity : x.ble (.infinity false) = true := by
  cases hx with
  | infinity => exact ble_refl nofun
  | finite steps hfits => exact ble_iff.2 ⟨_, _, rfl, rfl, Int.ofNat_le.2 (Nat.le_of_lt hfits.1)⟩

/-- There is nothing past infinity. -/
theorem eq_infinity (h : (Real64.infinity false).ble x = true) : x = .infinity false := by
  cases hx with
  | infinity => rfl
  | finite steps hfits =>
    obtain ⟨a, b, ha, hb, hab⟩ := ble_iff.1 h
    obtain rfl := Option.some.inj ha
    obtain rfl := Option.some.inj hb
    exact absurd (Int.ofNat_le.1 hab) (Nat.not_le.2 hfits.1)

/-- Multiplication with a positive number. -/
theorem mul {n : Nat} (hn : 0 < n) (hfits : Fits n) : Unsigned (x.mul (.finite false n hfits)) := by
  cases hx with
  | infinity =>
    rw [Real64.mul, if_neg (Nat.ne_of_gt hn)]
    exact .infinity
  | finite steps hsteps =>
    rw [Real64.mul]
    exact unsigned_ofSteps _ _

theorem round : Unsigned x.round := by
  cases hx with
  | infinity => exact .infinity
  | finite steps hfits =>
    rw [Real64.round]
    exact unsigned_ofRatio _ _

include hy

/-- What a number is at most is infinity, or both are finite and their steps are in order. -/
theorem of_ble (h : x.ble y = true) :
    y = .infinity false ∨ ∃ m hm n hn, x = .finite false m hm ∧ y = .finite false n hn ∧ m ≤ n := by
  cases hx with
  | infinity => exact .inl (hy.eq_infinity h)
  | finite m hm =>
    cases hy with
    | infinity => exact .inl rfl
    | finite n hn =>
      obtain ⟨a, b, ha, hb, hab⟩ := ble_iff.1 h
      obtain rfl := Option.some.inj ha
      obtain rfl := Option.some.inj hb
      exact .inr ⟨m, hm, n, hn, rfl, rfl, Int.ofNat_le.1 hab⟩

theorem isFinite_of_ble (hfinite : y.isFinite = true) (h : x.ble y = true) :
    x.isFinite = true := by
  rcases hx.of_ble hy h with rfl | ⟨m, hm, n, hn, rfl, rfl, hle⟩
  · contradiction
  · rfl

theorem mul_ble (h : x.ble y = true) {n : Nat} (hn : 0 < n) (hfits : Fits n) :
    (x.mul (.finite false n hfits)).ble (y.mul (.finite false n hfits)) = true := by
  rcases hx.of_ble hy h with rfl | ⟨m, hm, m', hm', rfl, rfl, hle⟩
  · have hinfinity : (Real64.infinity false).mul (.finite false n hfits) = .infinity false := by
      rw [Real64.mul, if_neg (Nat.ne_of_gt hn), Bool.xor_self]
    rw [hinfinity]
    exact (hx.mul hn hfits).ble_infinity
  · rw [Real64.mul, Real64.mul]
    exact ofSteps_ble unitSteps (Nat.mul_le_mul_right n hle)

theorem round_ble (h : x.ble y = true) : x.round.ble y.round = true := by
  rcases hx.of_ble hy h with rfl | ⟨m, hm, n, hn, rfl, rfl, hle⟩
  · exact hx.round.ble_infinity
  · rw [Real64.round, Real64.round]
    exact ofRatio_ble 1 (Nat.div_le_div_right (Nat.add_le_add_right (Nat.mul_le_mul_left 2 hle) _))

theorem toWord_le (h : x.ble y = true) : x.toWord ≤ y.toWord := by
  rcases hx.of_ble hy h with rfl | ⟨m, hm, n, hn, rfl, rfl, hle⟩
  · exact toWord_le_max x
  · exact Nat.le_min.2 ⟨Nat.le_trans (Nat.min_le_left ..) (Nat.div_le_div_right hle),
      Nat.min_le_right ..⟩

end Unsigned
end TagQuery.Real64
