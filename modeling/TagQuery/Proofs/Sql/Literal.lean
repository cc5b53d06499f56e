import TagQuery.Proofs.Sql.Reading
import TagQuery.Sql.Script

/-!
# Values in statements

How values are written in statements, and that each is read as the value that it was written for:
texts between quotes, whole numbers of 64 bits, and finite binary64 numbers.

## Main definitions

- `Sql.Denotes`: a text that is read as a value.

## Main statements

- `Sql.denotes_quote`, `Sql.denotes_integer`, `Sql.denotes_real`: the values of literals.
-/

namespace TagQuery

open Number

/-! ## Numbers as tokens -/

namespace Number.WrittenDecimal
variable (w : WrittenDecimal)

theorem scan_text : Sql.scan .nothing w.text = ([], .number w.text) := by
  obtain ⟨c, cs, hcs⟩ := List.exists_cons_of_ne_nil w.whole_ne_nil
  have hwhole := hcs ▸ w.isDigit_whole
  obtain ⟨hc, htail⟩ := List.forall_mem_cons.1 hwhole
  have hnumber {ds : List Char} (h : ∀ d ∈ ds, isDigit d = true) :
      ∀ d ∈ ds, Sql.isNumberChar d = true := fun d hd => Sql.isNumberChar_of_isDigit (h d hd)
  have hfraction : ∀ d ∈ w.fractionText, Sql.isNumberChar d = true := by
    intro d hd
    unfold fractionText at hd
    split at hd
    · contradiction
    · rcases List.mem_cons.1 hd with rfl | hd
      · rfl
      · exact hnumber w.isDigit_fraction d hd
  have hstart : Sql.scan .nothing (w.whole ++ w.fractionText) =
      ([], .number (w.whole ++ w.fractionText)) := by
    rw [hcs, List.cons_append]
    apply Sql.scan_number_start hc
    intro d hd
    exact (List.mem_append.1 hd).elim (hnumber htail d) (hfraction d)
  rw [text, ← List.append_assoc, Sql.scan_append, hstart]
  have hdigits := w.isDigit_exponent
  unfold exponentText
  generalize w.whole ++ w.fractionText = before at *
  generalize w.exponent = exponent at *
  cases exponent with
  | none => simp [Sql.scan]
  | some p =>
    obtain ⟨negative, digits⟩ := p
    have hexponent := hnumber (hdigits _ rfl)
    cases negative with
    | false =>
      have hall : ∀ d ∈ 'e' :: digits, Sql.isNumberChar d = true :=
        List.forall_mem_cons.2 ⟨rfl, hexponent⟩
      simp [Sql.scan_number hall]
    | true =>
      -- The sign continues the number because it stands after the `e`.
      simp [Sql.scan, Sql.Pending.step, Sql.continuesNumber, Sql.scan_number hexponent]

theorem numeral_text (negative : Bool) (h : w.fraction ≠ [] ∨ w.exponent ≠ none) :
    Sql.numeral negative w.text =
      some (.ofReal (realOfDecimal negative w.decimal.digits w.decimal.exponent)) := by
  have hmark : ∃ c ∈ w.text, isDigit c = false := by
    rcases h with h | h
    · exact ⟨'.', by simp [text, fractionText, h], by decide⟩
    · obtain ⟨p, hp⟩ := Option.ne_none_iff_exists'.1 h
      exact ⟨'e', by simp [text, exponentText, hp], by decide⟩
  obtain ⟨c, hc, hdigit⟩ := hmark
  have hall : ¬w.text.all isDigit = true := by
    intro hall
    rw [List.all_eq_true.1 hall c hc] at hdigit
    contradiction
  rw [Sql.numeral, if_neg hall, readDecimal_text]
  rfl

end Number.WrittenDecimal

namespace Sql

/-! ## Values as text -/

/-- A text that is read as a value. -/
def Denotes (cs : List Char) (v : Value) : Prop :=
  ∃ ts, Scans cs ts ∧ ScalarTokens ts (.constant v)

theorem denotes_quote (s : String) : Denotes (quote s.toList) (.text s) :=
  ⟨[.text s], scans_quote s, scalarTokens_text s⟩

theorem numeral_digits {negative : Bool} {n : Nat} (h : n < 2 ^ 63 ∨ negative ∧ n = 2 ^ 63) :
    numeral negative (Nat.toDigits 10 n) =
      some (.integer (if negative then -(n : Int) else n)) := by
  have hall : (Nat.toDigits 10 n).all isDigit = true :=
    List.all_eq_true.2 fun _ => isDigit_of_mem_toDigits
  rw [numeral, if_pos hall, ofDigits_toDigits, if_pos h]

theorem scans_toDigits (n : Nat) : Scans (Nat.toDigits 10 n) [.number (Nat.toDigits 10 n)] :=
  scans_digits Nat.toDigits_ne_nil fun _ => isDigit_of_mem_toDigits

theorem toList_toString (n : Nat) : (toString n).toList = Nat.toDigits 10 n := by
  rw [Nat.toString_eq_repr, Nat.toList_repr]

theorem closed_minus : Closed ['-'] [.sign .minus] := by decide

def numberTokens (negative : Bool) (cs : List Char) : List Token :=
  if negative then [.sign .minus, .number cs] else [.number cs]

theorem scalarTokens_numberTokens {negative : Bool} {cs : List Char} {v : Value}
    (h : numeral negative cs = some v) : ScalarTokens (numberTokens negative cs) (.constant v) := by
  cases negative with
  | false => exact scalarTokens_number h
  | true => exact scalarTokens_minus h

theorem scans_integer (i : Int) :
    Scans (toString i).toList (numberTokens (decide (i < 0)) (Nat.toDigits 10 i.natAbs)) := by
  cases i with
  | ofNat n =>
    have hsign : decide (Int.ofNat n < 0) = false := decide_eq_false (Int.natCast_nonneg n).not_gt
    have htext : (toString (Int.ofNat n)).toList = Nat.toDigits 10 n := toList_toString n
    rw [hsign, htext]
    exact scans_toDigits n
  | negSucc n =>
    have hsign : decide (Int.negSucc n < 0) = true := decide_eq_true (Int.negSucc_lt_zero n)
    have htext : (toString (Int.negSucc n)).toList = ['-'] ++ Nat.toDigits 10 (n + 1) := by
      have hminus : "-".toList = ['-'] := by decide
      rw [Int.toString_eq_repr, Int.repr, String.toList_append, Nat.toList_repr, hminus]
    rw [hsign, htext]
    exact closed_minus.append (scans_toDigits (n + 1))

/-- The negative numbers of 64 bits reach one further than the positive ones. -/
theorem scalarTokens_integer {i : Int} (hlow : -2 ^ 63 ≤ i) (hhigh : i < 2 ^ 63) :
    ScalarTokens (numberTokens (decide (i < 0)) (Nat.toDigits 10 i.natAbs))
      (.constant (.integer i)) := by
  have hbound : i.natAbs < 2 ^ 63 ∨ decide (i < 0) = true ∧ i.natAbs = 2 ^ 63 := by
    rw [decide_eq_true_eq]
    omega
  refine scalarTokens_numberTokens ?_
  rw [numeral_digits hbound]
  by_cases hnegative : i < 0
  · simp [hnegative, abs_of_neg]
  · simp [hnegative, abs_of_nonneg (not_lt.1 hnegative)]

theorem denotes_integer {i : Int} (hlow : -2 ^ 63 ≤ i) (hhigh : i < 2 ^ 63) :
    Denotes (toString i).toList (.integer i) :=
  ⟨_, scans_integer i, scalarTokens_integer hlow hhigh⟩

/-- A finite number is written as it is read. -/
theorem scans_real {x : Real64} (h : x.isFinite = true) :
    ∃ negative cs, Scans (RealLayout.debug.render x).toList (numberTokens negative cs) ∧
      numeral negative cs = some (.real x) := by
  cases x with
  | nan => contradiction
  | infinity negative => contradiction
  | finite negative steps hfits =>
    obtain ⟨w, htext, hreal, hmark⟩ := RealLayout.render_debug negative hfits
    have hnumeral := w.numeral_text negative hmark
    rw [hreal] at hnumeral
    have hscans : Scans w.text [.number w.text] :=
      ⟨[], .number w.text, w.scan_text, fun _ => Pending.noConfusion, rfl⟩
    refine ⟨negative, w.text, ?_, hnumeral⟩
    rw [htext]
    cases negative with
    | false => exact hscans
    | true => exact closed_minus.append hscans

theorem denotes_real {x : Real64} (h : x.isFinite = true) :
    Denotes (RealLayout.debug.render x).toList (.real x) := by
  obtain ⟨negative, cs, hscans, hvalue⟩ := scans_real h
  exact ⟨_, hscans, scalarTokens_numberTokens hvalue⟩

end Sql
end TagQuery
