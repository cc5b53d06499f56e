import TagQuery.Item.Predicate
import TagQuery.Text.Alphanumeric

/-!
# ASCII texts

On ASCII characters the full lowercase mapping changes the letters `A` to `Z` only, and the letters
and numerals of Unicode are those of ASCII.

## Main definitions

- `Text.IsAscii`: a text of ASCII characters other than NUL.

## Main statements

- `Text.lowercase_eq`: the lowercase form of an ASCII text.
- `Text.isAlphanumeric_eq`: the letters and digits among ASCII characters.
-/

namespace TagQuery.Text

/-- A text of ASCII characters other than NUL. -/
def IsAscii (s : String) : Prop :=
  ∀ c ∈ s.toList, 0 < c.toNat ∧ c.toNat < 128

instance (s : String) : Decidable (IsAscii s) :=
  List.decidableBAll (fun c : Char => 0 < c.toNat ∧ c.toNat < 128) s.toList

/-- The first run moves the letters `A` to `Z`, and no other run starts at an ASCII character. -/
theorem lowercaseRuns_split :
    ∃ runs, lowercaseRuns = ⟨0x41, 0x5A, 1, 0x61⟩ :: runs ∧ ∀ run ∈ runs, 128 ≤ run.first := by
  refine ⟨lowercaseRuns.tail, rfl, fun run h => ?_⟩
  have hall : lowercaseRuns.tail.all (fun run => 128 ≤ run.first) = true := by decide
  simpa using List.all_eq_true.1 hall run h

def IsCapital (n : Nat) : Prop := 0x41 ≤ n ∧ n ≤ 0x5A

instance (n : Nat) : Decidable (IsCapital n) := inferInstanceAs (Decidable (_ ∧ _))

theorem toNat_toLower (c : Char) :
    c.toLower.toNat = if IsCapital c.toNat then c.toNat + 32 else c.toNat := by
  have hcapital : c.val ≥ 'A'.val ∧ c.val ≤ 'Z'.val ↔ IsCapital c.toNat := by
    simp only [IsCapital, ge_iff_le, UInt32.le_iff_toNat_le]
    exact Iff.rfl
  unfold Char.toLower
  by_cases h : IsCapital c.toNat
  · rw [if_pos h, dif_pos (hcapital.2 h)]
    have hsum : (c.val + ('a'.val - 'A'.val)).toNat = (c.toNat + 32) % 2 ^ 32 :=
      UInt32.toNat_add _ _
    obtain ⟨hlow, hhigh⟩ := h
    rw [Char.toNat, hsum]
    omega
  · rw [if_neg h, dif_neg (mt hcapital.1 h)]

theorem toLower_of_isBlank {c : Char} (h : isBlank c = true) : c.toLower = c := by
  refine Char.toNat_inj.1 ((toNat_toLower c).trans (if_neg ?_))
  rintro ⟨hlow, hhigh⟩
  have hspace : c ≠ ' ' := by
    rintro rfl
    contradiction
  simp only [isBlank, Bool.or_eq_true, Bool.and_eq_true, beq_iff_eq, decide_eq_true_eq, hspace,
    false_or] at h
  omega

theorem toLower_toLower (c : Char) : c.toLower.toLower = c.toLower := by
  refine Char.toNat_inj.1 ?_
  rw [toNat_toLower c.toLower]
  have hlower := toNat_toLower c
  by_cases h : IsCapital c.toNat
  · rw [if_pos h] at hlower
    obtain ⟨hlow, hhigh⟩ := h
    exact if_neg fun hcapital => by unfold IsCapital at hcapital; omega
  · rw [if_neg h] at hlower
    rw [hlower, if_neg h]

theorem map_lowercaseRuns {c : Char} (h : c.toNat < 128) :
    CharMap.map lowercaseRuns c = c.toLower := by
  obtain ⟨runs, hruns, hfirst⟩ := lowercaseRuns_split
  have hnone : runs.find? (·.covers c.toNat) = none := by
    refine List.find?_eq_none.2 fun run hrun => ?_
    have := hfirst run hrun
    simp only [CharRun.covers, Bool.and_eq_true, decide_eq_true_eq]
    omega
  rw [CharMap.map, hruns]
  refine Char.toNat_inj.1 ?_
  rw [toNat_toLower]
  by_cases hcapital : IsCapital c.toNat
  · obtain ⟨hlow, hhigh⟩ := hcapital
    have hcovers : CharRun.covers ⟨0x41, 0x5A, 1, 0x61⟩ c.toNat = true := by
      simp [CharRun.covers, hlow, hhigh, Nat.mod_one]
    have himage : (Char.ofNat (0x61 + (c.toNat - 0x41))).toNat = 0x61 + (c.toNat - 0x41) := by
      rw [Char.ofNat, dif_pos (.inl (by omega))]
      rfl
    simp only [List.find?_cons, hcovers, himage]
    rw [if_pos ⟨hlow, hhigh⟩]
    omega
  · have hcovers : CharRun.covers ⟨0x41, 0x5A, 1, 0x61⟩ c.toNat = false := by
      unfold IsCapital at hcapital
      simp only [CharRun.covers, Bool.and_eq_false_iff, decide_eq_false_iff_not]
      omega
    simp only [List.find?_cons, hcovers, hnone]
    rw [if_neg hcapital]

theorem lowercaseFrom_eq {before cs : List Char} (h : ∀ c ∈ cs, c.toNat < 128) :
    lowercaseFrom before cs = cs.map Char.toLower := by
  induction cs generalizing before with
  | nil => rfl
  | cons c cs ih =>
    obtain ⟨hc, hcs⟩ := List.forall_mem_cons.1 h
    have hsigma : c ≠ 'Σ' := by
      rintro rfl
      contradiction
    have hdotted : c ≠ 'İ' := by
      rintro rfl
      contradiction
    simp [lowercaseFrom, hsigma, hdotted, map_lowercaseRuns hc, ih hcs]

/-- The lowercase form of an ASCII text. -/
theorem lowercase_eq {s : String} (h : IsAscii s) : lowercase s = asciiLowercase s := by
  rw [lowercase, asciiLowercase, lowercaseFrom_eq fun c hc => (h c hc).2]

theorem toList_asciiLowercase (s : String) :
    (asciiLowercase s).toList = s.toList.map Char.toLower := by
  rw [asciiLowercase, String.toList_ofList]

theorem asciiLowercase_eq_iff {s t : String} :
    asciiLowercase s = asciiLowercase t ↔
      s.toList.map Char.toLower = t.toList.map Char.toLower := by
  rw [← String.toList_inj, toList_asciiLowercase, toList_asciiLowercase]

/-! ## Letters and digits -/

set_option maxRecDepth 4000 in
/-- The first ranges are those of the ASCII digits and letters, and no other one starts among the
ASCII characters. -/
theorem alphanumericRanges_split :
    ∃ ranges, alphanumericRanges = (0x30, 0x39) :: (0x41, 0x5A) :: (0x61, 0x7A) :: ranges ∧
      ∀ r ∈ ranges, 128 ≤ r.1 := by
  refine ⟨alphanumericRanges.drop 3, rfl, fun r h => ?_⟩
  have hall : (alphanumericRanges.drop 3).all (fun r => 128 ≤ r.1) = true := by decide
  simpa using List.all_eq_true.1 hall r h

theorem isAlphanumeric_eq {c : Char} (h : c.toNat < 128) : isAlphanumeric c = c.isAlphanum := by
  obtain ⟨ranges, hranges, hfirst⟩ := alphanumericRanges_split
  have hnone : CharClass.contains ranges c = false := by
    refine List.any_eq_false.2 fun r hr => ?_
    have := hfirst r hr
    simp only [Bool.and_eq_true, decide_eq_true_eq]
    omega
  have hfirsts : isAlphanumeric c =
      ((decide (0x30 ≤ c.toNat) && decide (c.toNat ≤ 0x39)) ||
        ((decide (0x41 ≤ c.toNat) && decide (c.toNat ≤ 0x5A)) ||
          ((decide (0x61 ≤ c.toNat) && decide (c.toNat ≤ 0x7A)) ||
            CharClass.contains ranges c))) := by
    rw [isAlphanumeric, hranges]
    rfl
  have hascii : c.isAlphanum = ((decide ('A'.val ≤ c.val ∧ c.val ≤ 'Z'.val) ||
      (decide ('a'.val ≤ c.val) && decide (c.val ≤ 'z'.val))) ||
        (decide ('0'.val ≤ c.val) && decide (c.val ≤ '9'.val))) := rfl
  rw [hfirsts, hascii, hnone, Bool.eq_iff_iff]
  simp only [UInt32.le_iff_toNat_le, Bool.or_eq_true, Bool.and_eq_true, Bool.false_eq_true,
    or_false, decide_eq_true_eq]
  change _ ↔ ((0x41 ≤ c.toNat ∧ c.toNat ≤ 0x5A) ∨ (0x61 ≤ c.toNat ∧ c.toNat ≤ 0x7A)) ∨
    (0x30 ≤ c.toNat ∧ c.toNat ≤ 0x39)
  omega

end TagQuery.Text
