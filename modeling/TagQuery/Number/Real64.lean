/-!
# Binary64 numbers

The numbers of the format binary64, each finite one as a whole number of steps of `2 ^ -1074`, the
distance between neighbours around zero. Every operation is exact on steps and rounds once, to the
nearest number of the format and to the even neighbour of a half.

## Main definitions

- `Fits`: the step counts of the format, those with at most 53 significant bits.
- `Real64`: a number of the format.
- `Real64.ofSteps`: the number nearest to a quotient.
- `Real64.compare?`: the order, with no answer for NaN.
-/

namespace TagQuery

/-- The exponent of the step: a finite number is a whole number of steps of `2 ^ -1074`. -/
def stepExponent : Nat := 1074

def unitSteps : Nat := Nat.pow 2 stepExponent

/-- The step count at which the finite range ends. -/
def stepLimit : Nat := Nat.pow 2 (stepExponent + 1024)

theorem unitSteps_pos : 0 < unitSteps := by
  unfold unitSteps
  generalize stepExponent = n
  exact Nat.two_pow_pos n

theorem stepLimit_pos : 0 < stepLimit := by
  unfold stepLimit
  generalize stepExponent + 1024 = n
  exact Nat.two_pow_pos n

/-- The gap between the neighbours of `steps`: bits past the 53rd are dropped. -/
def gapExponent (steps : Nat) : Nat := steps.log2 - 52

/-- Whether a count of steps is in the format: within the range and of at most 53 significant
bits. -/
def Fits (steps : Nat) : Prop := steps < stepLimit ∧ Nat.pow 2 (gapExponent steps) ∣ steps

instance (steps : Nat) : Decidable (Fits steps) :=
  inferInstanceAs (Decidable (_ ∧ _))

/-- A number of the format binary64. -/
inductive Real64 where
  | nan
  | infinity (negative : Bool)
  | finite (negative : Bool) (steps : Nat) (fits : Fits steps)
  deriving DecidableEq

namespace Real64

/-! ## Rounding -/

/-- The whole number nearest to `num / den`; a half goes to the even neighbour. -/
def roundHalfEven (num den : Nat) : Nat :=
  let quotient := num / den
  let twice := 2 * (num % den)
  if twice < den then quotient
  else if den < twice then quotient + 1
  else quotient + quotient % 2

/-- Rounding goes up by one at most. -/
theorem roundHalfEven_le (num den : Nat) : roundHalfEven num den ≤ num / den + 1 := by
  unfold roundHalfEven
  dsimp only
  split
  · omega
  · split <;> omega

/-- What is left of a quotient once the gap is taken out has at most 53 bits. -/
theorem div_gap_lt (num den : Nat) :
    num / (den * Nat.pow 2 (gapExponent (num / den))) < Nat.pow 2 53 := by
  simp only [Nat.pow_eq]
  rw [← Nat.div_div_eq_div_mul]
  by_cases h : num / den = 0
  · simp [h]
  · apply Nat.div_lt_of_lt_mul
    rw [← Nat.pow_add]
    have hlt : num / den < 2 ^ ((num / den).log2 + 1) := Nat.lt_log2_self
    refine Nat.lt_of_lt_of_le hlt (Nat.pow_le_pow_right (by decide) ?_)
    simp only [gapExponent]
    omega

/-- A number of at most 53 bits stays a multiple of its gap when it is doubled. -/
theorem dvd_of_le_pow {m q : Nat} (hm : m ≤ Nat.pow 2 53) :
    Nat.pow 2 (gapExponent (m * Nat.pow 2 q)) ∣ m * Nat.pow 2 q := by
  simp only [Nat.pow_eq] at *
  by_cases h0 : m = 0
  · simp [h0]
  · rcases Nat.lt_or_ge m (2 ^ 53) with hlt | hge
    · refine Nat.dvd_trans (Nat.pow_dvd_pow 2 ?_) (Nat.dvd_mul_left (2 ^ q) m)
      have hb : m * 2 ^ q < 2 ^ (53 + q) := by
        rw [Nat.pow_add]
        exact Nat.mul_lt_mul_of_pos_right hlt (Nat.two_pow_pos q)
      have hne : m * 2 ^ q ≠ 0 := Nat.mul_ne_zero h0 (Nat.ne_of_gt (Nat.two_pow_pos q))
      have := (Nat.log2_lt hne).2 hb
      simp only [gapExponent]
      omega
    · have hm' : m = 2 ^ 53 := Nat.le_antisymm hm hge
      subst hm'
      rw [← Nat.pow_add]
      apply Nat.pow_dvd_pow
      simp only [gapExponent, Nat.log2_two_pow]
      omega

/-- The number nearest to `num / den` steps, or an infinity past the range. -/
def ofSteps (negative : Bool) (num den : Nat) : Real64 :=
  let gap := gapExponent (num / den)
  let rounded := roundHalfEven num (den * Nat.pow 2 gap)
  if h : rounded * Nat.pow 2 gap < stepLimit then
    .finite negative (rounded * Nat.pow 2 gap)
      ⟨h, dvd_of_le_pow (Nat.le_trans (roundHalfEven_le _ _) (div_gap_lt num den))⟩
  else .infinity negative

def ofRatio (negative : Bool) (num den : Nat) : Real64 :=
  ofSteps negative (num * unitSteps) den

def ofNat (n : Nat) : Real64 :=
  ofRatio false n 1

def ofInt (i : Int) : Real64 :=
  ofRatio (i < 0) i.natAbs 1

def zero (negative : Bool) : Real64 :=
  .finite negative 0 ⟨stepLimit_pos, Nat.dvd_zero _⟩

def one : Real64 := ofNat 1

/-! ## Order -/

def isFinite : Real64 → Bool
  | .finite .. => true
  | _ => false

def signedSteps (negative : Bool) (steps : Nat) : Int :=
  if negative then -(steps : Int) else steps

/-- The order of two numbers; NaN has none, and the two zeros are equal. -/
def compare? : Real64 → Real64 → Option Ordering
  | .nan, _ => none
  | _, .nan => none
  | .infinity a, .infinity b => some (if a = b then .eq else if a then .lt else .gt)
  | .infinity a, .finite .. => some (if a then .lt else .gt)
  | .finite .., .infinity b => some (if b then .gt else .lt)
  | .finite a m _, .finite b n _ => some (compare (signedSteps a m) (signedSteps b n))

def eqv (x y : Real64) : Bool := compare? x y == some .eq

/-- Strictly less; false when either is NaN. -/
def blt (x y : Real64) : Bool := compare? x y == some .lt

def ble (x y : Real64) : Bool := blt x y || eqv x y

/-- A total order of the finite numbers in which the negative zero precedes the positive one. -/
def totalLe : Real64 → Real64 → Bool
  | .finite a m _, .finite b n _ =>
    signedSteps a m < signedSteps b n || (signedSteps a m == signedSteps b n && (a || !b))
  | x, y => ble x y

/-- The number nearest to `x` among those from `low` to `high`. -/
def clamp (x low high : Real64) : Real64 :=
  if blt x low then low else if blt high x then high else x

/-! ## Arithmetic -/

def add : Real64 → Real64 → Real64
  | .nan, _ => .nan
  | _, .nan => .nan
  | .infinity a, .infinity b => if a = b then .infinity a else .nan
  | .infinity a, _ => .infinity a
  | _, .infinity b => .infinity b
  | .finite a m _, .finite b n _ =>
    let sum := signedSteps a m + signedSteps b n
    if sum = 0 then zero (a && b) else ofSteps (sum < 0) sum.natAbs 1

def mul : Real64 → Real64 → Real64
  | .nan, _ => .nan
  | _, .nan => .nan
  | .infinity a, .infinity b => .infinity (a ^^ b)
  | .infinity a, .finite b n _ => if n = 0 then .nan else .infinity (a ^^ b)
  | .finite a m _, .infinity b => if m = 0 then .nan else .infinity (a ^^ b)
  | .finite a m _, .finite b n _ => ofSteps (a ^^ b) (m * n) unitSteps

def div : Real64 → Real64 → Real64
  | .nan, _ => .nan
  | _, .nan => .nan
  | .infinity _, .infinity _ => .nan
  | .infinity a, .finite b _ _ => .infinity (a ^^ b)
  | .finite a _ _, .infinity b => zero (a ^^ b)
  | .finite a m _, .finite b n _ =>
    if n = 0 then (if m = 0 then .nan else .infinity (a ^^ b))
    else ofSteps (a ^^ b) (m * unitSteps) n

/-- The nearest whole number; a half goes away from zero. -/
def round : Real64 → Real64
  | .finite a m _ => ofRatio a ((2 * m + unitSteps) / (2 * unitSteps)) 1
  | x => x

/-- The whole part as a number of 64 bits; what lies outside goes to the nearer end, NaN to zero. -/
def toWord : Real64 → Nat
  | .nan => 0
  | .infinity a => if a then 0 else Nat.pow 2 64 - 1
  | .finite a m _ => if a then 0 else min (m / unitSteps) (Nat.pow 2 64 - 1)

end Real64
end TagQuery
