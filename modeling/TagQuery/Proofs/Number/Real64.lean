import Mathlib.Algebra.Group.Nat.Defs
import TagQuery.Item.Predicate

/-!
# The order of binary64 numbers

Every number but NaN has a place among the integers: its signed count of steps, or an end of the
range. Two numbers compare as their places do.

## Main definitions

- `Real64.place?`: the place of a number in the order.

## Main statements

- `Real64.compare?_eq`: numbers compare as their places do.
- `Real64.ofSteps_of_dvd`: a quotient that is in the format is not rounded.
- `samplePoint_blt_clamp_of_one_le`, `samplePoint_blt_clamp_of_le_zero`: a portion of one takes
  every file, and a portion of zero takes none.
-/

namespace TagQuery

namespace Real64

/-! ## Places -/

/-- The place of a number in the order. The infinities stand at the ends of the finite range. -/
def place? : Real64 → Option Int
  | .nan => none
  | .infinity negative => some (signedSteps negative stepLimit)
  | .finite negative steps _ => some (signedSteps negative steps)

def comparePlaces : Option Int → Option Int → Option Ordering
  | some a, some b => some (compare a b)
  | _, _ => none

@[simp] theorem signedSteps_false (steps : Nat) : signedSteps false steps = steps := rfl

@[simp] theorem signedSteps_true (steps : Nat) : signedSteps true steps = -steps := rfl

theorem signedSteps_bounds (negative : Bool) {steps : Nat} (h : steps < stepLimit) :
    -(stepLimit : Int) < signedSteps negative steps ∧ signedSteps negative steps < stepLimit := by
  unfold signedSteps
  split <;> omega

/-- Numbers compare as their places do. -/
theorem compare?_eq (x y : Real64) : compare? x y = comparePlaces x.place? y.place? := by
  have hpos := stepLimit_pos
  cases x with
  | nan => rfl
  | infinity a =>
    cases y with
    | nan => rfl
    | infinity b =>
      cases a <;> cases b <;> refine congrArg some (Eq.symm ?_)
      · exact Int.compare_eq_eq.2 rfl
      · exact Int.compare_eq_gt.2 (by rw [signedSteps_false, signedSteps_true]; omega)
      · exact Int.compare_eq_lt.2 (by rw [signedSteps_false, signedSteps_true]; omega)
      · exact Int.compare_eq_eq.2 rfl
    | finite b n hn =>
      have hb := signedSteps_bounds b hn.1
      cases a
      · exact congrArg some (Int.compare_eq_gt.2 hb.2).symm
      · exact congrArg some (Int.compare_eq_lt.2 hb.1).symm
  | finite a m hm =>
    have ha := signedSteps_bounds a hm.1
    cases y with
    | nan => rfl
    | infinity b =>
      cases b
      · exact congrArg some (Int.compare_eq_lt.2 ha.2).symm
      · exact congrArg some (Int.compare_eq_gt.2 ha.1).symm
    | finite b n hn => rfl

theorem eqv_iff {x y : Real64} : x.eqv y = true ↔ ∃ a, x.place? = some a ∧ y.place? = some a := by
  cases hx : x.place? <;> cases hy : y.place? <;>
    simp [eqv, compare?_eq, comparePlaces, hx, hy]
  exact eq_comm

theorem blt_iff {x y : Real64} :
    x.blt y = true ↔ ∃ a b, x.place? = some a ∧ y.place? = some b ∧ a < b := by
  cases hx : x.place? <;> cases hy : y.place? <;>
    simp [blt, compare?_eq, comparePlaces, hx, hy, Int.compare_eq_lt]

theorem ble_iff {x y : Real64} :
    x.ble y = true ↔ ∃ a b, x.place? = some a ∧ y.place? = some b ∧ a ≤ b := by
  cases hx : x.place? <;> cases hy : y.place? <;>
    simp [ble, Bool.or_eq_true, blt_iff, eqv_iff, hx, hy]
  omega

theorem exists_place? {x : Real64} (h : x ≠ .nan) : ∃ a, x.place? = some a := by
  cases x with
  | nan => contradiction
  | infinity negative => exact ⟨_, rfl⟩
  | finite negative steps fits => exact ⟨_, rfl⟩

theorem ne_nan_of_isFinite {x : Real64} (h : x.isFinite = true) : x ≠ .nan := by
  rintro rfl
  contradiction

theorem ne_nan_of_blt {x y : Real64} (h : x.blt y = true) : y ≠ .nan := by
  rintro rfl
  obtain ⟨_, _, -, hnan, -⟩ := blt_iff.1 h
  contradiction

theorem ne_nan_of_ble {x y : Real64} (h : x.ble y = true) : x ≠ .nan ∧ y ≠ .nan := by
  obtain ⟨a, b, ha, hb, -⟩ := ble_iff.1 h
  constructor <;> rintro rfl <;> contradiction

/-- Of two numbers, the one is less than the other, or the other is at most the one. -/
theorem ble_eq_not_blt {x y : Real64} (hx : x ≠ .nan) (hy : y ≠ .nan) : y.ble x = !x.blt y := by
  obtain ⟨a, ha⟩ := exists_place? hx
  obtain ⟨b, hb⟩ := exists_place? hy
  rw [Bool.eq_iff_iff, Bool.not_eq_true', ← Bool.not_eq_true, ble_iff, blt_iff]
  simp [ha, hb]

theorem blt_of_blt_of_ble {x y z : Real64} (hxy : x.blt y = true) (hyz : y.ble z = true) :
    x.blt z = true := by
  obtain ⟨a, b, ha, hb, hab⟩ := blt_iff.1 hxy
  obtain ⟨b', c, hb', hc, hbc⟩ := ble_iff.1 hyz
  obtain rfl : b = b' := Option.some.inj (hb.symm.trans hb')
  exact blt_iff.2 ⟨a, c, ha, hc, by omega⟩

theorem blt_of_ble_of_blt {x y z : Real64} (hxy : x.ble y = true) (hyz : y.blt z = true) :
    x.blt z = true := by
  obtain ⟨a, b, ha, hb, hab⟩ := ble_iff.1 hxy
  obtain ⟨b', c, hb', hc, hbc⟩ := blt_iff.1 hyz
  obtain rfl : b = b' := Option.some.inj (hb.symm.trans hb')
  exact blt_iff.2 ⟨a, c, ha, hc, by omega⟩

theorem ble_refl {x : Real64} (h : x ≠ .nan) : x.ble x = true := by
  obtain ⟨a, ha⟩ := exists_place? h
  exact ble_iff.2 ⟨a, a, ha, ha, Int.le_refl a⟩

theorem blt_irrefl (x : Real64) : x.blt x = false := by
  rw [← Bool.not_eq_true, blt_iff]
  rintro ⟨a, b, ha, hb, hab⟩
  obtain rfl : a = b := Option.some.inj (ha.symm.trans hb)
  omega

theorem ble_trans {x y z : Real64} (hxy : x.ble y = true) (hyz : y.ble z = true) :
    x.ble z = true := by
  obtain ⟨a, b, ha, hb, hab⟩ := ble_iff.1 hxy
  obtain ⟨b', c, hb', hc, hbc⟩ := ble_iff.1 hyz
  obtain rfl : b = b' := Option.some.inj (hb.symm.trans hb')
  exact ble_iff.2 ⟨a, c, ha, hc, by omega⟩

/-- To be at least a bound is for the bound to be at most the number. -/
theorem testReal_greaterOrEqual (x bound : Real64) :
    CompareOp.testReal .greaterOrEqual x bound = bound.ble x := by
  rw [CompareOp.testReal, ble, blt, eqv, compare?_eq, compare?_eq]
  cases hx : x.place? with
  | none => cases bound.place? <;> rfl
  | some a =>
    cases hb : bound.place? with
    | none => rfl
    | some b =>
      simp only [CompareOp.holds, comparePlaces]
      rcases Int.lt_trichotomy a b with h | h | h
      · rw [Int.compare_eq_lt.2 h, Int.compare_eq_gt.2 h]
        rfl
      · rw [Int.compare_eq_eq.2 h, Int.compare_eq_eq.2 h.symm]
        rfl
      · rw [Int.compare_eq_gt.2 h, Int.compare_eq_lt.2 h]
        rfl

/-- Equal numbers are in the same relations to every number. -/
theorem compare?_congr_right {x a b : Real64} (h : a.eqv b = true) :
    compare? x a = compare? x b := by
  obtain ⟨p, ha, hb⟩ := eqv_iff.1 h
  rw [compare?_eq, compare?_eq, ha, hb]

@[simp] theorem place?_zero (negative : Bool) : place? (zero negative) = some 0 := by
  cases negative <;> simp [zero, place?, signedSteps]

/-! ## Rounding -/

/-- A quotient that is in the format is not rounded. -/
theorem ofSteps_of_dvd (negative : Bool) {num den : Nat} (hden : 0 < den) (hdvd : den ∣ num)
    (hfits : Fits (num / den)) : ofSteps negative num den = .finite negative (num / den) hfits := by
  obtain ⟨n, rfl⟩ := hdvd
  rw [Nat.mul_div_cancel_left n hden] at hfits
  have hgap : 0 < 2 ^ gapExponent n := Nat.two_pow_pos _
  have hround :
      roundHalfEven (den * n) (den * Nat.pow 2 (gapExponent n)) * 2 ^ gapExponent n = n := by
    have hd : 2 ^ gapExponent n ∣ n := hfits.2
    have hmod : den * n % (den * 2 ^ gapExponent n) = 0 :=
      Nat.mod_eq_zero_of_dvd (Nat.mul_dvd_mul_left den hd)
    simp only [Nat.pow_eq, roundHalfEven, hmod, Nat.mul_zero, Nat.mul_pos hden hgap, if_true]
    rw [Nat.mul_div_mul_left _ _ hden]
    exact Nat.div_mul_cancel hd
  simp only [ofSteps, Nat.mul_div_cancel_left n hden, Nat.pow_eq] at hround ⊢
  simp only [hround, dif_pos hfits.1]

theorem unitSteps_eq : unitSteps = 2 ^ stepExponent := by
  unfold unitSteps
  rw [Nat.pow_eq]

theorem stepLimit_eq : stepLimit = 2 ^ (stepExponent + 1024) := by
  unfold stepLimit
  rw [Nat.pow_eq]

theorem fits_mul_pow {m q : Nat} (hm : m ≤ 2 ^ 53) (hq : 53 + q < stepExponent + 1024) :
    Fits (m * 2 ^ q) := by
  refine ⟨?_, by simpa using dvd_of_le_pow (q := q) (by simpa using hm)⟩
  rw [stepLimit_eq]
  calc m * 2 ^ q ≤ 2 ^ 53 * 2 ^ q := Nat.mul_le_mul_right _ hm
    _ = 2 ^ (53 + q) := (Nat.pow_add ..).symm
    _ < 2 ^ (stepExponent + 1024) := Nat.pow_lt_pow_right (by decide) hq

/-- Whole numbers of up to 53 bits are in the format. -/
theorem fits_mul_unitSteps {n : Nat} (h : n ≤ 2 ^ 53) : Fits (n * unitSteps) := by
  rw [unitSteps_eq]
  exact fits_mul_pow h (by omega)

theorem ofRatio_one (negative : Bool) {n : Nat} (h : n ≤ 2 ^ 53) :
    ofRatio negative n 1 = .finite negative (n * unitSteps) (fits_mul_unitSteps h) := by
  have hdiv : n * unitSteps / 1 = n * unitSteps := Nat.div_one _
  have hfits : Fits (n * unitSteps / 1) := by
    rw [hdiv]
    exact fits_mul_unitSteps h
  simp only [ofRatio, ofSteps_of_dvd negative Nat.one_pos (Nat.one_dvd _) hfits, hdiv]

theorem ofNat_eq_finite {n : Nat} (h : n ≤ 2 ^ 53) :
    ofNat n = .finite false (n * unitSteps) (fits_mul_unitSteps h) := by
  rw [ofNat, ofRatio_one false h]

theorem place?_ofNat {n : Nat} (h : n ≤ 2 ^ 53) :
    (ofNat n).place? = some ((n * unitSteps : Nat) : Int) := by
  rw [ofNat_eq_finite h, place?, signedSteps_false]

@[simp] theorem place?_one : place? one = some (unitSteps : Int) := by
  rw [one, place?_ofNat (by decide), Nat.one_mul]

/-! ## Portions -/

theorem clamp_of_one_le {p : Real64} (h : one.ble p = true) :
    (p.clamp (.zero false) .one).place? = some (unitSteps : Int) := by
  have hunit : (0 : Int) ≤ unitSteps := Int.natCast_nonneg _
  obtain ⟨a, b, ha, hb, hab⟩ := ble_iff.1 h
  rw [place?_one, Option.some.injEq] at ha
  subst ha
  have hzero : p.blt (.zero false) = false := by
    rw [← Bool.not_eq_true, blt_iff]
    rintro ⟨c, d, hc, hd, hcd⟩
    rw [hb, Option.some.injEq] at hc
    rw [place?_zero, Option.some.injEq] at hd
    omega
  unfold clamp
  rw [if_neg (by simp [hzero])]
  split
  · exact place?_one
  · next hlt =>
    rw [blt_iff] at hlt
    have : ¬ (unitSteps : Int) < b := fun hlt' => hlt ⟨_, b, place?_one, hb, hlt'⟩
    rw [hb, Int.le_antisymm (Int.not_lt.1 this) hab]

theorem clamp_of_le_zero {p : Real64} (h : p.ble (.zero false) = true) :
    (p.clamp (.zero false) .one).place? = some 0 := by
  have hunit : (0 : Int) ≤ unitSteps := Int.natCast_nonneg _
  obtain ⟨a, b, ha, hb, hab⟩ := ble_iff.1 h
  rw [place?_zero, Option.some.injEq] at hb
  subst hb
  unfold clamp
  split
  · simp
  · next hlt =>
    rw [blt_iff] at hlt
    have hnot : ¬ a < 0 := fun hlt' => hlt ⟨a, 0, ha, place?_zero false, hlt'⟩
    have hone : one.blt p = false := by
      rw [← Bool.not_eq_true, blt_iff]
      rintro ⟨c, d, hc, hd, hcd⟩
      rw [place?_one, Option.some.injEq] at hc
      rw [ha, Option.some.injEq] at hd
      omega
    rw [if_neg (by simp [hone]), ha, Int.le_antisymm hab (Int.not_lt.1 hnot)]

end Real64

/-! ## Sample points -/

theorem Digest.lowWord_lt (d : Digest) : d.lowWord < 2 ^ 64 := by
  have h0 := d.words[0].toNat_lt
  have h1 := d.words[1].toNat_lt
  simp only [lowWord, Nat.pow_eq]
  omega

/-- The place of a file is a multiple of `2 ^ -53` below one. -/
theorem place?_samplePoint (hash : String) :
    ∃ n, n < 2 ^ 53 ∧
      (samplePoint hash).place? = some ((n * 2 ^ (stepExponent - 53) : Nat) : Int) := by
  have hn : (Digest.ofText hash).lowWord / 2 ^ 11 < 2 ^ 53 :=
    Nat.div_lt_of_lt_mul (Digest.lowWord_lt _)
  refine ⟨(Digest.ofText hash).lowWord / 2 ^ 11, hn, ?_⟩
  generalize hw : (Digest.ofText hash).lowWord / 2 ^ 11 = n at hn
  have hnum : n * unitSteps = 2 ^ 53 * (n * 2 ^ (stepExponent - 53)) := by
    rw [Real64.unitSteps_eq, Nat.mul_left_comm, ← Nat.pow_add,
      Nat.add_sub_cancel' (by simp [stepExponent])]
  have hdiv : n * unitSteps / 2 ^ 53 = n * 2 ^ (stepExponent - 53) := by
    rw [hnum, Nat.mul_div_cancel_left _ (by decide)]
  have hfits : Fits (n * unitSteps / 2 ^ 53) := by
    rw [hdiv]
    exact Real64.fits_mul_pow (Nat.le_of_lt hn) (by omega)
  have hpoint : samplePoint hash = .finite false (n * unitSteps / 2 ^ 53) hfits := by
    simp only [samplePoint, Real64.ofRatio, Nat.pow_eq, hw]
    exact Real64.ofSteps_of_dvd false (by decide) ⟨_, hnum⟩ hfits
  rw [hpoint, Real64.place?, Real64.signedSteps_false, hdiv]

/-- A portion of one or more takes every file. -/
theorem samplePoint_blt_clamp_of_one_le (hash : String) {p : Real64}
    (h : Real64.one.ble p = true) : (samplePoint hash).blt (p.clamp (.zero false) .one) = true := by
  obtain ⟨n, hn, hplace⟩ := place?_samplePoint hash
  refine Real64.blt_iff.2 ⟨_, _, hplace, Real64.clamp_of_one_le h, ?_⟩
  have hunit : unitSteps = 2 ^ 53 * 2 ^ (stepExponent - 53) := by
    rw [Real64.unitSteps_eq, ← Nat.pow_add, Nat.add_sub_cancel' (by simp [stepExponent])]
  rw [hunit]
  exact Int.ofNat_lt.2 (Nat.mul_lt_mul_of_pos_right hn (Nat.two_pow_pos _))

/-- A portion of zero or less takes no file. -/
theorem samplePoint_blt_clamp_of_le_zero (hash : String) {p : Real64}
    (h : p.ble (.zero false) = true) :
    (samplePoint hash).blt (p.clamp (.zero false) .one) = false := by
  obtain ⟨n, _, hplace⟩ := place?_samplePoint hash
  rw [← Bool.not_eq_true, Real64.blt_iff]
  rintro ⟨a, b, ha, hb, hab⟩
  rw [hplace, Option.some.injEq] at ha
  rw [Real64.clamp_of_le_zero h, Option.some.injEq] at hb
  have hnonneg := Int.natCast_nonneg (n * 2 ^ (stepExponent - 53))
  omega

end TagQuery
