import TagQuery.Number.Layout
import TagQuery.Proofs.Number.Shortest

/-!
# Numbers in text are read back

The digits of a whole number stand for it, and a binary64 number written as a literal is read as
that number: the literal stands for the value of the shortest decimal, wherever its point is put.

## Main definitions

- `Number.WrittenDecimal`: a decimal in text.

## Main statements

- `Number.ofDigits_toDigits`: digits stand for their number.
- `Number.WrittenDecimal.readDecimal_text`: a decimal in text is read as what it stands for.
- `RealLayout.render_debug`: a literal is read as the number that it was written for.
-/

namespace TagQuery

namespace Number

/-! ## Digits -/

theorem isDigit_of_mem_toDigits {c : Char} {n : Nat} (h : c ∈ Nat.toDigits 10 n) :
    isDigit c = true := by
  have hc := Nat.isDigit_of_mem_toDigits (by decide) (by decide) h
  simp only [Char.isDigit, isDigit, Bool.and_eq_true, decide_eq_true_eq] at hc ⊢
  exact hc

theorem ofDigits_eq_ofDigitChars (cs : List Char) : ofDigits cs = Nat.ofDigitChars 10 cs 0 := by
  simp only [ofDigits, Nat.ofDigitChars_eq_foldl, Nat.mul_comm]

theorem ofDigits_append (a b : List Char) :
    ofDigits (a ++ b) = ofDigits a * 10 ^ b.length + ofDigits b := by
  rw [ofDigits_eq_ofDigitChars, ofDigits_eq_ofDigitChars, ofDigits_eq_ofDigitChars,
    Nat.ofDigitChars_append, Nat.ofDigitChars_eq_ofDigitChars_zero, Nat.mul_comm]

@[simp] theorem ofDigits_replicate_zero (n : Nat) : ofDigits (List.replicate n '0') = 0 := by
  rw [ofDigits_eq_ofDigitChars, Nat.ofDigitChars_replicate_zero, Nat.mul_zero]

/-- Digits stand for their number. -/
@[simp] theorem ofDigits_toDigits (n : Nat) : ofDigits (Nat.toDigits 10 n) = n := by
  rw [ofDigits_eq_ofDigitChars, Nat.ofDigitChars_ten_toDigits]

/-! ## Decimals in text -/

/-- A decimal in text: digits, more digits after a point if there are any, and an exponent with its
sign. -/
structure WrittenDecimal where
  whole : List Char
  fraction : List Char
  exponent : Option (Bool × List Char)
  whole_ne_nil : whole ≠ []
  isDigit_whole : ∀ c ∈ whole, isDigit c = true
  isDigit_fraction : ∀ c ∈ fraction, isDigit c = true
  exponent_ne_nil : ∀ p ∈ exponent, p.2 ≠ []
  isDigit_exponent : ∀ p ∈ exponent, ∀ c ∈ p.2, isDigit c = true

namespace WrittenDecimal
variable (w : WrittenDecimal)

def fractionText : List Char :=
  if w.fraction = [] then [] else '.' :: w.fraction

def exponentText : List Char :=
  match w.exponent with
  | none => []
  | some (negative, digits) => 'e' :: ((if negative then ['-'] else []) ++ digits)

def text : List Char := w.whole ++ (w.fractionText ++ w.exponentText)

def power : Int :=
  match w.exponent with
  | none => 0
  | some (negative, digits) => if negative then -(ofDigits digits : Int) else ofDigits digits

def decimal : Decimal :=
  ⟨ofDigits (w.whole ++ w.fraction), w.power - w.fraction.length⟩

theorem takeWhile_exponentText : w.exponentText.takeWhile isDigit = [] := by
  unfold exponentText
  split <;> rfl

theorem dropWhile_exponentText : w.exponentText.dropWhile isDigit = w.exponentText := by
  unfold exponentText
  split <;> rfl

theorem readExponent_exponentText : readExponent w.exponentText = some w.power := by
  have hne := w.exponent_ne_nil
  have hdigits := w.isDigit_exponent
  unfold exponentText power
  generalize w.exponent = exponent at *
  cases exponent with
  | none => rfl
  | some p =>
    obtain ⟨negative, digits⟩ := p
    have hall : digits.all isDigit = true := List.all_eq_true.2 (hdigits (negative, digits) rfl)
    have hempty : digits.isEmpty = false := by simpa using hne _ rfl
    cases negative with
    | true => simp [readExponent, hall, hempty]
    | false =>
      obtain ⟨c, cs, rfl⟩ := List.exists_cons_of_ne_nil (hne _ rfl)
      have hc : isDigit c = true := hdigits _ rfl c List.mem_cons_self
      have hminus : c ≠ '-' := by
        rintro rfl
        contradiction
      have hplus : c ≠ '+' := by
        rintro rfl
        contradiction
      simp [readExponent, hall, hminus, hplus]

/-- A decimal in text is read as the decimal that it stands for. -/
theorem readDecimal_text : readDecimal w.text = some ⟨w.decimal.digits, w.decimal.exponent⟩ := by
  have hwhole : w.whole.isEmpty = false := by simpa using w.whole_ne_nil
  unfold readDecimal text
  by_cases hfraction : w.fraction = []
  · have htail : w.fractionText = [] := if_pos hfraction
    rw [htail, List.nil_append, List.takeWhile_append_of_pos w.isDigit_whole,
      List.dropWhile_append_of_pos w.isDigit_whole, takeWhile_exponentText,
      dropWhile_exponentText, List.append_nil]
    have hpoint : ∀ ds, w.exponentText ≠ '.' :: ds := by
      intro ds
      unfold exponentText
      split <;> simp
    dsimp only
    split
    · next ds hds => exact absurd hds (hpoint ds)
    · simp [hwhole, readExponent_exponentText, decimal, hfraction]
  · have htail : w.fractionText = '.' :: w.fraction := if_neg hfraction
    have hdot : isDigit '.' = false := by decide
    rw [htail, List.cons_append, List.takeWhile_append_of_pos w.isDigit_whole,
      List.dropWhile_append_of_pos w.isDigit_whole, List.takeWhile_cons_of_neg (by simp [hdot]),
      List.dropWhile_cons_of_neg (by simp [hdot]), List.append_nil]
    simp [hwhole, readExponent_exponentText, decimal,
      List.takeWhile_append_of_pos w.isDigit_fraction,
      List.dropWhile_append_of_pos w.isDigit_fraction, takeWhile_exponentText,
      dropWhile_exponentText]

end WrittenDecimal

end Number

namespace RealLayout

open Number

/-! ## Literals -/

theorem all_toDigits (n : Nat) : ∀ c ∈ Nat.toDigits 10 n, isDigit c = true :=
  fun _ => isDigit_of_mem_toDigits

theorem isDigit_of_mem_replicate {n : Nat} {c : Char} (h : c ∈ List.replicate n '0') :
    isDigit c = true := by
  rw [(List.mem_replicate.1 h).2]
  decide

section
variable {ds : List Char} {leading : Int} (hne : ds ≠ []) (hdigits : ∀ c ∈ ds, isDigit c = true)
include hne hdigits

/-- All digits stand after the point. -/
theorem exists_written_of_neg (hneg : leading < 0) :
    ∃ w : WrittenDecimal, debug.positionalText ds leading = w.text ∧
      w.decimal = ⟨ofDigits ds, leading + 1 - ds.length⟩ ∧ w.fraction ≠ [] := by
  have hfraction : List.replicate ((-leading).toNat - 1) '0' ++ ds ≠ [] := by simp [hne]
  refine ⟨⟨['0'], List.replicate ((-leading).toNat - 1) '0' ++ ds, none, by simp,
    fun _ => isDigit_of_mem_replicate (n := 1), ?_, by simp, by simp⟩, ?_, ?_, hfraction⟩
  · intro c hc
    rcases List.mem_append.1 hc with hc | hc
    · exact isDigit_of_mem_replicate hc
    · exact hdigits c hc
  · simp [positionalText, hneg, WrittenDecimal.text, WrittenDecimal.fractionText,
      WrittenDecimal.exponentText, hne]
  · have hexp : (0 : Int) - (((-leading).toNat - 1 + ds.length : Nat) : Int) =
        leading + 1 - ds.length := by
      omega
    have hvalue : ofDigits (['0'] ++ (List.replicate ((-leading).toNat - 1) '0' ++ ds)) =
        ofDigits ds := by
      rw [ofDigits_append, ofDigits_append, ofDigits_replicate_zero]
      simp [ofDigits]
    simp only [WrittenDecimal.decimal, WrittenDecimal.power, hvalue, List.length_append,
      List.length_replicate, hexp]

/-- The digits end before the point, up to which zeros stand, and one zero stands after it. -/
theorem exists_written_of_length_le (hleading : 0 ≤ leading)
    (hle : ds.length ≤ leading.toNat + 1) :
    ∃ w : WrittenDecimal, debug.positionalText ds leading = w.text ∧
      w.decimal.value = (⟨ofDigits ds, leading + 1 - ds.length⟩ : Decimal).value ∧
      w.fraction ≠ [] := by
  have hneg : ¬leading < 0 := Int.not_lt.2 hleading
  have htake : ds.take (leading.toNat + 1) = ds := List.take_of_length_le hle
  refine ⟨⟨ds ++ List.replicate (leading.toNat + 1 - ds.length) '0', ['0'], none, by simp [hne],
    ?_, fun _ => isDigit_of_mem_replicate (n := 1), by simp, by simp⟩, ?_, ?_, by simp⟩
  · intro c hc
    rcases List.mem_append.1 hc with hc | hc
    · exact hdigits c hc
    · exact isDigit_of_mem_replicate hc
  · have hdrop : ds.drop (leading.toNat + 1) = [] := List.drop_eq_nil_of_le hle
    simp [positionalText, hneg, hdrop, htake, debug, WrittenDecimal.text,
      WrittenDecimal.fractionText, WrittenDecimal.exponentText]
  · have hexp : leading + 1 - ds.length = ((leading.toNat + 1 - ds.length : Nat) : Int) := by omega
    simp only [WrittenDecimal.decimal, WrittenDecimal.power, Decimal.value, ofDigits_append,
      ofDigits_replicate_zero, List.length_replicate, List.length_singleton, hexp]
    simp [ofDigits, zpow_neg]

/-- The point stands between two digits. -/
theorem exists_written_of_lt_length (hleading : 0 ≤ leading)
    (hlt : leading.toNat + 1 < ds.length) :
    ∃ w : WrittenDecimal, debug.positionalText ds leading = w.text ∧
      w.decimal = ⟨ofDigits ds, leading + 1 - ds.length⟩ ∧ w.fraction ≠ [] := by
  have hneg : ¬leading < 0 := Int.not_lt.2 hleading
  have hfraction : ds.drop (leading.toNat + 1) ≠ [] := by
    rw [Ne, List.drop_eq_nil_iff]
    omega
  refine ⟨⟨ds.take (leading.toNat + 1), ds.drop (leading.toNat + 1), none, by simp [hne],
    fun c hc => hdigits c (List.mem_of_mem_take hc),
    fun c hc => hdigits c (List.mem_of_mem_drop hc), by simp, by simp⟩, ?_, ?_, hfraction⟩
  · have hzeros : leading.toNat + 1 - ds.length = 0 := by omega
    simp [positionalText, hneg, hfraction, hzeros, WrittenDecimal.text,
      WrittenDecimal.fractionText, WrittenDecimal.exponentText]
  · have hexp : (0 : Int) - ((ds.length - (leading.toNat + 1) : Nat) : Int) =
        leading + 1 - ds.length := by
      omega
    simp only [WrittenDecimal.decimal, WrittenDecimal.power, List.take_append_drop,
      List.length_drop, hexp]

end

/-- Digits with the point at its place, and a zero after the point of a whole number. -/
theorem exists_written_positional (d : Decimal) :
    ∃ w : WrittenDecimal, debug.positionalText (Nat.toDigits 10 d.digits)
        (d.exponent + (Nat.toDigits 10 d.digits).length - 1) = w.text ∧
      w.decimal.value = d.value ∧ w.fraction ≠ [] := by
  have hofDigits := ofDigits_toDigits d.digits
  have hdigits := all_toDigits d.digits
  have hne : Nat.toDigits 10 d.digits ≠ [] := Nat.toDigits_ne_nil
  generalize Nat.toDigits 10 d.digits = ds at *
  generalize hleading : d.exponent + (ds.length : Int) - 1 = leading
  have hexp : leading + 1 - ds.length = d.exponent := by omega
  have hd : d = ⟨ofDigits ds, leading + 1 - ds.length⟩ := by rw [hofDigits, hexp]
  rw [hd]
  by_cases hneg : leading < 0
  · obtain ⟨w, htext, hdecimal, hfraction⟩ := exists_written_of_neg hne hdigits hneg
    exact ⟨w, htext, congrArg Decimal.value hdecimal, hfraction⟩
  · rcases Nat.lt_or_ge (leading.toNat + 1) ds.length with hlt | hle
    · obtain ⟨w, htext, hdecimal, hfraction⟩ :=
        exists_written_of_lt_length hne hdigits (Int.not_lt.1 hneg) hlt
      exact ⟨w, htext, congrArg Decimal.value hdecimal, hfraction⟩
    · exact exists_written_of_length_le hne hdigits (Int.not_lt.1 hneg) hle

/-- Digits with the point after the first, and the exponent. -/
theorem exists_written_scientific (d : Decimal) :
    ∃ w : WrittenDecimal, debug.scientificText (Nat.toDigits 10 d.digits)
        (d.exponent + (Nat.toDigits 10 d.digits).length - 1) = w.text ∧
      w.decimal.value = d.value ∧ w.exponent ≠ none := by
  have hofDigits := ofDigits_toDigits d.digits
  have hdigits := all_toDigits d.digits
  have hlength : 0 < (Nat.toDigits 10 d.digits).length := Nat.length_toDigits_pos
  generalize Nat.toDigits 10 d.digits = ds at *
  obtain ⟨c, cs, rfl⟩ := List.exists_cons_of_ne_nil (List.ne_nil_of_length_pos hlength)
  generalize hleading : d.exponent + ((c :: cs).length : Int) - 1 = leading
  refine ⟨⟨[c], cs, some (decide (leading < 0), Nat.toDigits 10 leading.natAbs), by simp,
    fun x hx => hdigits x (by simp_all), fun x hx => hdigits x (List.mem_cons_of_mem c hx), ?_, ?_⟩,
    ?_, ?_, by simp⟩
  · rintro p hp
    rw [← Option.some.inj hp]
    exact Nat.toDigits_ne_nil
  · rintro p hp
    rw [← Option.some.inj hp]
    exact all_toDigits _
  · by_cases hneg : leading < 0 <;> by_cases hcs : cs = [] <;>
      simp [scientificText, debug, hneg, hcs, WrittenDecimal.text, WrittenDecimal.fractionText,
        WrittenDecimal.exponentText]
  · have hpower : (if decide (leading < 0) then -((leading.natAbs : Nat) : Int)
        else (leading.natAbs : Int)) = leading := by
      by_cases hneg : leading < 0
      · rw [if_pos (decide_eq_true hneg)]
        omega
      · rw [if_neg (by simpa using hneg)]
        omega
    have hexp : leading - (cs.length : Int) = d.exponent := by
      rw [← hleading, List.length_cons]
      push_cast
      ring
    simp only [WrittenDecimal.decimal, WrittenDecimal.power, ofDigits_toDigits, hpower, hexp,
      List.singleton_append, hofDigits]

/-- A literal is a decimal in text with the value of the decimal it is made from. -/
theorem exists_written (d : Decimal) :
    ∃ w : WrittenDecimal, debug.decimalText d = w.text ∧ w.decimal.value = d.value ∧
      (w.fraction ≠ [] ∨ w.exponent ≠ none) := by
  by_cases hbounds : (-4 : Int) ≤ d.exponent + (Nat.toDigits 10 d.digits).length - 1 ∧
      d.exponent + (Nat.toDigits 10 d.digits).length - 1 ≤ 15
  · obtain ⟨w, htext, hvalue, hfraction⟩ := exists_written_positional d
    exact ⟨w, (if_pos hbounds).trans htext, hvalue, .inl hfraction⟩
  · obtain ⟨w, htext, hvalue, hexponent⟩ := exists_written_scientific d
    exact ⟨w, (if_neg hbounds).trans htext, hvalue, .inr hexponent⟩

/-- The literal of a finite number is its sign and a decimal in text that is read as the number. -/
theorem render_debug (negative : Bool) {steps : Nat} (hfits : Fits steps) :
    ∃ w : WrittenDecimal,
      (debug.render (.finite negative steps hfits)).toList =
        (if negative then ['-'] else []) ++ w.text ∧
      realOfDecimal negative w.decimal.digits w.decimal.exponent = .finite negative steps hfits ∧
      (w.fraction ≠ [] ∨ w.exponent ≠ none) := by
  by_cases hzero : steps = 0
  · subst hzero
    obtain ⟨w, htext, hvalue, hreal⟩ := exists_written ⟨0, 0⟩
    refine ⟨w, ?_, ?_, hreal⟩
    · simp only [render, if_true, String.toList_ofList, htext]
    · have hdigits : w.decimal.digits = 0 := by
        have hten : (10 : ℚ) ^ w.decimal.exponent ≠ 0 := zpow_ne_zero _ (by norm_num)
        simpa [Decimal.value, hten] using hvalue
      simp only [realOfDecimal, hdigits, true_or, if_true]
      rfl
  · obtain ⟨w, htext, hvalue, hreal⟩ := exists_written (shortest debug.tie steps)
    refine ⟨w, ?_, ?_, hreal⟩
    · simp only [render, if_neg hzero, String.toList_ofList, htext]
    · have hpos := Nat.pos_of_ne_zero hzero
      refine realOfDecimal_of_holdsAt negative hfits hpos ?_
      have hshortest := holdsAt_shortest debug.tie hfits hpos
      rwa [← hvalue] at hshortest

end RealLayout
end TagQuery
