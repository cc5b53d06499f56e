import TagQuery.Proofs.Number.Monotone
import TagQuery.Proofs.Number.Written
import TagQuery.Proofs.Text.Ascii

/-!
# Digits in text

A run of digits is read as the whole number that it stands for: as a whole number where that is
within the limit, and as the binary64 number nearest to it however many digits there are.

## Main statements

- `Number.readNat_digits`: digits as a whole number of bounded size.
- `Number.readReal_digits`: digits as a binary64 number.
-/

namespace TagQuery.Number

/-! ## Whole numbers -/

theorem toNat_of_isDigit {c : Char} (h : isDigit c = true) :
    '0'.toNat ≤ c.toNat ∧ c.toNat ≤ '9'.toNat := by
  simp only [isDigit, Bool.and_eq_true, decide_eq_true_eq] at h
  exact ⟨UInt32.le_iff_toNat_le.1 h.1, UInt32.le_iff_toNat_le.1 h.2⟩

theorem digitOf?_of_isDigit {c : Char} (h : isDigit c = true) :
    digitOf? 10 c = some (c.toNat - '0'.toNat) := by
  obtain ⟨hzero, hnine⟩ := toNat_of_isDigit h
  have hlt : c.toNat - '0'.toNat < 10 :=
    Nat.sub_lt_left_of_lt_add hzero (Nat.lt_succ_of_le hnine)
  simp only [isDigit, Bool.and_eq_true, decide_eq_true_eq] at h
  rw [digitOf?, digitValue, if_pos h, Option.filter_some, if_pos (decide_eq_true hlt)]

theorem isBlank_of_isDigit {c : Char} (h : isDigit c = true) : Text.isBlank c = false := by
  obtain ⟨hzero, hnine⟩ := toNat_of_isDigit h
  have hspace : c ≠ ' ' := by
    rintro rfl
    contradiction
  simp only [Text.isBlank, Bool.or_eq_false_iff, Bool.and_eq_false_iff, beq_eq_false_iff_ne,
    decide_eq_false_iff_not, ne_eq, hspace, not_false_eq_true, true_and]
  change 48 ≤ c.toNat at hzero
  change c.toNat ≤ 57 at hnine
  omega

theorem ne_of_isDigit {c d : Char} (h : isDigit c = true) (hd : isDigit d = false) : c ≠ d := by
  rintro rfl
  exact absurd h (by simp [hd])

theorem toLower_of_isDigit {c : Char} (h : isDigit c = true) : c.toLower = c := by
  refine Char.toNat_inj.1 ((Text.toNat_toLower c).trans (if_neg fun hcapital => ?_))
  exact absurd (Nat.le_trans hcapital.1 (toNat_of_isDigit h).2) (by decide)

theorem le_ofDigitChars (n : Nat) (cs : List Char) : n ≤ Nat.ofDigitChars 10 cs n := by
  rw [Nat.ofDigitChars_eq_ofDigitChars_zero]
  exact Nat.le_add_right_of_le (Nat.le_mul_of_pos_left n (Nat.pow_pos (by decide)))

section
variable {cs : List Char} (hcs : ∀ c ∈ cs, isDigit c = true)
include hcs

/-- Digits are read one by one, up to the first with which the number passes the limit. -/
theorem readDigits_digits {limit n : Nat} (past : IntegerFault) (hn : n ≤ limit) :
    readDigits 10 limit past n cs =
      if Nat.ofDigitChars 10 cs n ≤ limit then .ok (Nat.ofDigitChars 10 cs n)
      else .error past := by
  induction cs generalizing n with
  | nil => rw [readDigits, Nat.ofDigitChars_nil, if_pos hn]
  | cons c cs ih =>
    obtain ⟨hc, hrest⟩ := List.forall_mem_cons.1 hcs
    rw [readDigits, digitOf?_of_isDigit hc, Nat.ofDigitChars_cons, Nat.mul_comm 10 n]
    dsimp only
    split
    · next hpast =>
      have hle := le_ofDigitChars (n * 10 + (c.toNat - '0'.toNat)) cs
      rw [if_neg (Nat.not_le.2 (Nat.lt_of_lt_of_le hpast hle))]
    · next hlimit => exact ih hrest (Nat.le_of_not_lt hlimit)

variable (hne : cs ≠ [])
include hne

theorem readNat_digits (limit : Nat) :
    readNat 10 limit cs =
      if ofDigits cs ≤ limit then .ok (ofDigits cs) else .error .tooLarge := by
  obtain ⟨c, cs, rfl⟩ := List.exists_cons_of_ne_nil hne
  have hplus : c ≠ '+' := ne_of_isDigit (hcs c List.mem_cons_self) rfl
  rw [readNat, readMagnitude, List.isEmpty_cons, if_neg Bool.false_ne_true,
    readDigits_digits hcs _ (Nat.zero_le _), ofDigits_eq_ofDigitChars]
  · exact nofun
  · rintro ds ⟨rfl, rfl⟩
    contradiction

end

/-! ## Binary64 numbers -/

theorem ofNat_ten_pow : Real64.ofNat (10 ^ 400) = .infinity false := by
  decide +kernel

/-- A number of more than four hundred digits is past the range. -/
theorem ofNat_of_length_lt {n : Nat} (h : 400 < (Nat.toDigits 10 n).length) :
    Real64.ofNat n = .infinity false := by
  have hpos : 0 < n := by
    refine Nat.pos_of_ne_zero ?_
    rintro rfl
    contradiction
  have hlength : 10 ^ 400 ≤ 10 ^ ((Nat.toDigits 10 n).length - 1) := by
    gcongr
    · decide
    · exact Nat.le_sub_one_of_lt h
  have hble := Real64.ofNat_ble (Nat.le_trans hlength (pow_length_bounds hpos).1)
  rw [ofNat_ten_pow] at hble
  exact (Real64.unsigned_ofNat n).eq_infinity hble

/-- The decimals without an exponent are the whole numbers. -/
theorem realOfDecimal_zero (n : Nat) : realOfDecimal false n 0 = .ofNat n := by
  unfold realOfDecimal
  dsimp only
  by_cases hn : n = 0
  · rw [if_pos (.inl hn), hn, Real64.ofNat, Real64.ofRatio, Nat.zero_mul,
      Real64.ofSteps_zero false Nat.one_pos]
  · rw [if_neg (by omega)]
    split
    · next hlength => exact (ofNat_of_length_lt (by omega)).symm
    · rw [if_pos le_rfl, Int.toNat_zero, Nat.pow_eq, Nat.pow_zero, Nat.mul_one, Real64.ofNat]

theorem readReal_digits {cs : List Char} (hcs : ∀ c ∈ cs, isDigit c = true) (hne : cs ≠ []) :
    readReal cs = .ok (.ofNat (ofDigits cs)) := by
  let w : WrittenDecimal := ⟨cs, [], none, hne, hcs, nofun, nofun, nofun⟩
  have htext : w.text = cs := by
    simp [w, WrittenDecimal.text, WrittenDecimal.fractionText, WrittenDecimal.exponentText]
  have hdecimal : w.decimal = ⟨ofDigits cs, 0⟩ := by
    simp [w, WrittenDecimal.decimal, WrittenDecimal.power]
  have hread := w.readDecimal_text
  rw [htext, hdecimal] at hread
  obtain ⟨c, cs, rfl⟩ := List.exists_cons_of_ne_nil hne
  have hc := hcs c List.mem_cons_self
  have hword {d : Char} {ds : List Char} (hd : isDigit d = false) :
      (c :: cs).map Char.toLower ≠ d :: ds := by
    rw [List.map_cons, toLower_of_isDigit hc]
    exact fun h => ne_of_isDigit hc hd (List.cons.inj h).1
  have hsign {d : Char} {ds : List Char} (hd : isDigit d = false) : c :: cs ≠ d :: ds :=
    fun h => ne_of_isDigit hc hd (List.cons.inj h).1
  have hunsigned : readReal (c :: cs) = readUnsignedReal false (c :: cs) := by
    rw [readReal]
    · exact fun h => absurd h (List.cons_ne_nil c cs)
    · exact fun ds => hsign (by decide)
    · exact fun ds => hsign (by decide)
  have hinf : (c :: cs).map Char.toLower ≠ "inf".toList := hword (by decide)
  have hinfinity : (c :: cs).map Char.toLower ≠ "infinity".toList := hword (by decide)
  have hnan : (c :: cs).map Char.toLower ≠ "nan".toList := hword (by decide)
  rw [hunsigned, readUnsignedReal, if_neg (not_or_intro hinf hinfinity), if_neg hnan, hread]
  simp only [realOfDecimal_zero]

end TagQuery.Number
