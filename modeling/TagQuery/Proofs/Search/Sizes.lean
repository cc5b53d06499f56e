import TagQuery.Proofs.Number.Whole
import TagQuery.Proofs.Text.Cut
import TagQuery.Search.Values

/-!
# Sizes in whole numbers

A size in digits with a unit is the product of the two where 64 bits hold it. Digits that 64 bits do
not hold are read as a binary64 number, and there the greatest number of bytes is not told from
`2 ^ 64`, to which it rounds: what rounds to that power is taken for the greatest number.

## Main definitions

- `Search.WrittenSize`: a size of digits in text.
- `Search.roundedBytes`: the bytes of a size that is read as a binary64 number.

## Main statements

- `Search.splitUnit_append`: the unit of a size.
- `Search.WrittenSize.readSize_text`: the two ways in which a size in digits is read.
- `Search.readSize_whole`: the value of a size in digits, or that it is refused.
-/

namespace TagQuery.Search

/-! ## Units -/

section
variable {number : List Char} (hlast : ∀ c ∈ number.getLast?, ∀ p ∈ sizeUnits, c ∉ p.1)
include hlast

/-- A text without a unit is a number of bytes. -/
theorem splitUnit_eq_self : splitUnit number = (number, 1) := by
  have hnames : ∀ p ∈ sizeUnits, p.1 ≠ [] := by decide
  have hnone {p : List Char × Nat} (hp : p ∈ sizeUnits) : Text.dropSuffix? p.1 number = none := by
    rw [← List.dropLast_append_getLast (hnames p hp)]
    refine Text.dropSuffix?_eq_none fun c hc heq => hlast c hc p hp ?_
    exact heq ▸ List.getLast_mem (hnames p hp)
  unfold splitUnit
  rw [List.findSome?_eq_none_iff.2 fun p hp => Option.map_eq_none_iff.2 (hnone hp)]
  rfl

/-- The number and the unit of a size, also where the name of the unit ends that of another. -/
theorem splitUnit_append {name : List Char} {unit : Nat} (hunit : (name, unit) ∈ sizeUnits) :
    splitUnit (number ++ name) = (Text.trimBy Text.isBlank number, unit) := by
  have hnone {c : Char} (hc : ∃ p ∈ sizeUnits, c ∈ p.1) :
      Text.dropPrefix? [c] number.reverse = none := by
    obtain ⟨p, hp, hc⟩ := hc
    refine Text.dropPrefix?_eq_none fun d hd heq => hlast d ?_ p hp (heq ▸ hc)
    rwa [List.head?_reverse] at hd
  have ht := hnone (c := 't') (by decide)
  have hg := hnone (c := 'g') (by decide)
  have hm := hnone (c := 'm') (by decide)
  have hk := hnone (c := 'k') (by decide)
  simp only [sizeUnits, List.mem_cons, List.not_mem_nil, or_false, Prod.mk.injEq] at hunit
  rcases hunit with ⟨rfl, rfl⟩ | ⟨rfl, rfl⟩ | ⟨rfl, rfl⟩ | ⟨rfl, rfl⟩ | ⟨rfl, rfl⟩ <;>
    simp [splitUnit, sizeUnits, Text.dropSuffix?, Text.dropPrefix?, ht, hg, hm, hk]

end

/-! ## Sizes in text -/

/-- The units in lower case, with none for bytes, and the powers of 1024 that they stand for. -/
def wholeUnits : List (List Char × Nat) :=
  [([], 1), ("b".toList, 1), ("kb".toList, 2 ^ 10), ("mb".toList, 2 ^ 20), ("gb".toList, 2 ^ 30),
    ("tb".toList, 2 ^ 40)]

/-- A size in text: digits and a unit in any letter case, with blanks around both. -/
structure WrittenSize where
  before : List Char
  digits : List Char
  between : List Char
  word : List Char
  after : List Char
  unit : Nat
  isBlank_before : ∀ c ∈ before, Text.isBlank c = true
  digits_ne_nil : digits ≠ []
  isDigit_digits : ∀ c ∈ digits, Number.isDigit c = true
  isBlank_between : ∀ c ∈ between, Text.isBlank c = true
  unit_of_word : (word.map Char.toLower, unit) ∈ wholeUnits
  isBlank_after : ∀ c ∈ after, Text.isBlank c = true

namespace WrittenSize
variable (w : WrittenSize)

def text : String :=
  String.ofList (w.before ++ (w.digits ++ (w.between ++ w.word)) ++ w.after)

def number : Nat := Number.ofDigits w.digits

theorem mem_sizeUnits (h : w.word ≠ []) : (w.word.map Char.toLower, w.unit) ∈ sizeUnits := by
  have hunits : ∀ p ∈ wholeUnits, p.1 ≠ [] → p ∈ sizeUnits := by decide
  exact hunits _ w.unit_of_word (by simpa using h)

theorem unit_eq_one (h : w.word = []) : w.unit = 1 := by
  have hunits : ∀ p ∈ wholeUnits, p.1 = [] → p.2 = 1 := by decide
  exact hunits _ w.unit_of_word (by simp [h])

theorem unit_pos : 0 < w.unit := by
  have hunits : ∀ p ∈ wholeUnits, 0 < p.2 := by decide
  exact hunits _ w.unit_of_word

theorem not_blank_digits {c : Char} (hc : c ∈ w.digits) : Text.isBlank c = false :=
  Number.isBlank_of_isDigit (w.isDigit_digits c hc)

theorem not_blank_word {c : Char} (hc : c ∈ w.word) : Text.isBlank c = false := by
  have hnames : ∀ p ∈ wholeUnits, p.1.any Text.isBlank = false := by decide
  have hlower := List.any_eq_false.1 (hnames _ w.unit_of_word) c.toLower (List.mem_map_of_mem hc)
  by_contra hblank
  rw [Bool.not_eq_false] at hblank
  rw [Text.toLower_of_isBlank hblank] at hlower
  exact hlower hblank

/-- No character of a number and of the blanks after it is in the name of a unit. -/
theorem notMem_of_mem {c : Char} (hc : c ∈ w.digits ++ w.between) : ∀ p ∈ sizeUnits, c ∉ p.1 := by
  have hnames : ∀ p ∈ sizeUnits,
      p.1.any Number.isDigit = false ∧ p.1.any Text.isBlank = false := by decide
  intro p hp hmem
  obtain ⟨hdigit, hblank⟩ := hnames p hp
  rcases List.mem_append.1 hc with hc | hc
  · exact List.any_eq_false.1 hdigit c hmem (w.isDigit_digits c hc)
  · exact List.any_eq_false.1 hblank c hmem (w.isBlank_between c hc)

theorem trimBy_digits {before after : List Char} (hbefore : ∀ c ∈ before, Text.isBlank c = true)
    (hafter : ∀ c ∈ after, Text.isBlank c = true) :
    Text.trimBy Text.isBlank (before ++ w.digits ++ after) = w.digits :=
  Text.trimBy_append hbefore hafter (fun _ hc => w.not_blank_digits (List.mem_of_mem_head? hc))
    fun _ hc => w.not_blank_digits (List.mem_of_mem_getLast? hc)

/-- The blanks after the digits are at the end of a size without a unit. -/
theorem trim_text :
    Text.trim w.text =
      String.ofList (if w.word = [] then w.digits else w.digits ++ (w.between ++ w.word)) := by
  rw [Text.trim, text, String.toList_ofList]
  refine congrArg String.ofList ?_
  split
  · next hword =>
    have hafter : ∀ c ∈ w.between ++ w.after, Text.isBlank c = true :=
      List.forall_mem_append.2 ⟨w.isBlank_between, w.isBlank_after⟩
    rw [hword, List.append_nil, ← List.append_assoc, List.append_assoc]
    exact w.trimBy_digits w.isBlank_before hafter
  · next hword =>
    refine Text.trimBy_append w.isBlank_before w.isBlank_after (fun c hc => ?_) fun c hc => ?_
    · rw [List.head?_append_of_ne_nil _ w.digits_ne_nil] at hc
      exact w.not_blank_digits (List.mem_of_mem_head? hc)
    · rw [← List.append_assoc, List.getLast?_append_of_ne_nil _ hword] at hc
      exact w.not_blank_word (List.mem_of_mem_getLast? hc)

theorem map_toLower_digits : w.digits.map Char.toLower = w.digits :=
  (List.map_congr_left fun c hc => Number.toLower_of_isDigit (w.isDigit_digits c hc)).trans
    (List.map_id _)

theorem map_toLower_between : w.between.map Char.toLower = w.between :=
  (List.map_congr_left fun c hc => Text.toLower_of_isBlank (w.isBlank_between c hc)).trans
    (List.map_id _)

/-- The digits and the unit of a size are those that it is written with. -/
theorem splitUnit_text :
    splitUnit (Text.asciiLowercase (Text.trim w.text)).toList = (w.digits, w.unit) := by
  rw [Text.toList_asciiLowercase, w.trim_text, String.toList_ofList]
  split
  · next hword =>
    rw [map_toLower_digits, w.unit_eq_one hword, splitUnit_eq_self fun c hc =>
      w.notMem_of_mem (List.mem_append_left _ (List.mem_of_mem_getLast? hc))]
  · next hword =>
    have htrim : Text.trimBy Text.isBlank (w.digits ++ w.between) = w.digits :=
      w.trimBy_digits (List.forall_mem_nil _) w.isBlank_between
    rw [List.map_append, List.map_append, map_toLower_digits, map_toLower_between,
      ← List.append_assoc, splitUnit_append (fun c hc =>
        w.notMem_of_mem (List.mem_of_mem_getLast? hc)) (w.mem_sizeUnits hword), htrim]

/-- Digits that 64 bits hold are multiplied as they are, and others as a binary64 number. -/
theorem readSize_text :
    readSize w.text =
      if w.number ≤ Number.maxWord then
        if w.number * w.unit ≤ Number.maxWord then .ok (w.number * w.unit)
        else .error .sizeOverflow
      else sizeOfReal (.ofNat w.number) w.unit := by
  have hnat : Number.readNat 10 Number.maxWord w.digits =
      if w.number ≤ Number.maxWord then .ok w.number else .error .tooLarge :=
    Number.readNat_digits w.isDigit_digits w.digits_ne_nil _
  unfold readSize
  rw [w.splitUnit_text]
  dsimp only
  rw [hnat]
  by_cases h : w.number ≤ Number.maxWord
  · rw [if_pos h, if_pos h]
  · rw [if_neg h, if_neg h, Number.readReal_digits w.isDigit_digits w.digits_ne_nil]
    rfl

end WrittenSize

/-! ## Past 64 bits -/

def roundedBytes (n unit : Nat) : Real64 :=
  ((Real64.ofNat n).mul (.ofNat unit)).round

section
variable {n n' unit : Nat} (hpos : 0 < unit) (hunit : unit ≤ 2 ^ 53)
include hpos hunit

theorem unsigned_roundedBytes (n : Nat) : (roundedBytes n unit).Unsigned := by
  unfold roundedBytes
  rw [Real64.ofNat_eq_finite hunit]
  exact ((Real64.unsigned_ofNat n).mul (Nat.mul_pos hpos unitSteps_pos) _).round

/-- More of a unit are not fewer bytes. -/
theorem roundedBytes_ble (h : n ≤ n') :
    (roundedBytes n unit).ble (roundedBytes n' unit) = true := by
  have hsteps : 0 < unit * unitSteps := Nat.mul_pos hpos unitSteps_pos
  have hn := Real64.unsigned_ofNat n
  have hn' := Real64.unsigned_ofNat n'
  unfold roundedBytes
  rw [Real64.ofNat_eq_finite hunit]
  exact (hn.mul hsteps _).round_ble (hn'.mul hsteps _)
    (hn.mul_ble hn' (Real64.ofNat_ble h) hsteps _)

/-- Where a number of bytes is past 64 bits, so are the greater ones. -/
theorem sizeOfReal_of_le (hover : (Real64.ofNat Number.maxWord).blt (roundedBytes n unit) = true)
    (h : n ≤ n') :
    sizeOfReal (.ofNat n') unit = .error .sizeOverflow ∨
      sizeOfReal (.ofNat n') unit = .error .negativeSize := by
  have hpast : (Real64.ofNat Number.maxWord).blt (roundedBytes n' unit) = true :=
    Real64.blt_of_blt_of_ble hover (roundedBytes_ble hpos hunit h)
  unfold sizeOfReal
  split
  · exact .inr rfl
  · exact .inl (if_pos hpast)

end

/-- In binary64 the greatest number of 64 bits is not told from the next one, nor from those up to
the middle between that and its neighbour. -/
theorem sizeOfReal_near {n : Nat} (hlow : 2 ^ 64 ≤ n) (hhigh : n ≤ 2 ^ 64 + 2 ^ 11) :
    sizeOfReal (.ofNat n) 1 = .ok Number.maxWord := by
  have hend : (Real64.ofNat (2 ^ 64 + 2 ^ 11)).isFinite = true := by decide +kernel
  have hbytes : (roundedBytes (2 ^ 64 + 2 ^ 11) 1).ble (.ofNat Number.maxWord) = true := by
    decide +kernel
  have hword : (roundedBytes (2 ^ 64) 1).toWord = Number.maxWord := by decide +kernel
  have hn := Real64.unsigned_ofNat n
  have hunsigned := unsigned_roundedBytes Nat.one_pos (by decide)
  have hmono {m m' : Nat} (h : m ≤ m') := roundedBytes_ble Nat.one_pos (by decide) h
  have hfinite : (Real64.ofNat n).isFinite = true :=
    hn.isFinite_of_ble (Real64.unsigned_ofNat _) hend (Real64.ofNat_ble hhigh)
  have hle : (roundedBytes n 1).ble (.ofNat Number.maxWord) = true :=
    Real64.ble_trans (hmono hhigh) hbytes
  have hnot : (Real64.ofNat Number.maxWord).blt (roundedBytes n 1) = false := by
    obtain ⟨hleft, hright⟩ := Real64.ne_nan_of_ble hle
    rw [Real64.ble_eq_not_blt hright hleft, Bool.not_eq_true'] at hle
    exact hle
  have hmax : (roundedBytes n 1).toWord = Number.maxWord :=
    Nat.le_antisymm (Real64.toWord_le_max _)
      (hword ▸ (hunsigned _).toWord_le (hunsigned n) (hmono hlow))
  unfold sizeOfReal
  rw [hfinite, hn.blt_zero, if_neg (by decide)]
  dsimp only
  rw [← roundedBytes, hnot, hmax, if_neg (by decide)]

/-- Digits that 64 bits do not hold are refused, unless they are bytes that are taken for the
greatest number. -/
theorem sizeOfReal_past {name : List Char} {n unit : Nat} (hunit : (name, unit) ∈ wholeUnits)
    (hlow : 2 ^ 64 ≤ n) (hbyte : unit = 1 → 2 ^ 64 + 2 ^ 11 < n) :
    sizeOfReal (.ofNat n) unit = .error .sizeOverflow ∨
      sizeOfReal (.ofNat n) unit = .error .negativeSize := by
  have hone : (Real64.ofNat Number.maxWord).blt (roundedBytes (2 ^ 64 + 2 ^ 11 + 1) 1) = true := by
    decide +kernel
  have hunits : ∀ p ∈ wholeUnits, p.2 = 1 ∨ 0 < p.2 ∧ p.2 ≤ 2 ^ 53 ∧
      (Real64.ofNat Number.maxWord).blt (roundedBytes (2 ^ 64) p.2) = true := by decide +kernel
  rcases hunits _ hunit with rfl | ⟨hpos, hle, hover⟩
  · exact sizeOfReal_of_le Nat.one_pos (by decide) hone (hbyte rfl)
  · exact sizeOfReal_of_le hpos hle hover hlow

/-- A size in digits is its number of units times the bytes of the unit where 64 bits hold the
product, and is refused where they do not. Only numbers of bytes up to `2 ^ 64 + 2 ^ 11` are not
refused but taken for the greatest number of 64 bits. -/
theorem readSize_whole (w : WrittenSize) :
    (w.number * w.unit ≤ Number.maxWord → readSize w.text = .ok (w.number * w.unit)) ∧
      (w.unit = 1 → Number.maxWord < w.number → w.number ≤ 2 ^ 64 + 2 ^ 11 →
        readSize w.text = .ok Number.maxWord) ∧
      (Number.maxWord < w.number * w.unit → (w.unit = 1 → 2 ^ 64 + 2 ^ 11 < w.number) →
        readSize w.text = .error .sizeOverflow ∨ readSize w.text = .error .negativeSize) := by
  have hpos := w.unit_pos
  have hmax : Number.maxWord + 1 = 2 ^ 64 := by decide
  rw [w.readSize_text]
  refine ⟨fun h => ?_, fun hunit hlow hhigh => ?_, fun h hbyte => ?_⟩
  · have hnumber : w.number ≤ Number.maxWord := Nat.le_trans (Nat.le_mul_of_pos_right _ hpos) h
    rw [if_pos hnumber, if_pos h]
  · rw [if_neg (Nat.not_le.2 hlow), hunit]
    exact sizeOfReal_near (hmax ▸ hlow) hhigh
  · by_cases hnumber : w.number ≤ Number.maxWord
    · rw [if_pos hnumber, if_neg (Nat.not_le.2 h)]
      exact .inl rfl
    · rw [if_neg hnumber]
      exact sizeOfReal_past w.unit_of_word (hmax ▸ Nat.not_le.1 hnumber) hbyte

/-- The last terabyte that 64 bits hold, the next one, and a number of bytes that is taken for the
greatest. -/
theorem readSize_whole_terabytes :
    let last : WrittenSize := ⟨['\t'], "16777215".toList, [' ', ' '], "tB".toList, ['\n'], 2 ^ 40,
      List.all_eq_true.1 rfl, by decide, List.all_eq_true.1 rfl, List.all_eq_true.1 rfl, by decide,
      List.all_eq_true.1 rfl⟩
    let next : WrittenSize := ⟨[], "0016777216".toList, [], "Tb".toList, [' '], 2 ^ 40,
      List.forall_mem_nil _, by decide, List.all_eq_true.1 rfl, List.forall_mem_nil _, by decide,
      List.all_eq_true.1 rfl⟩
    let near : WrittenSize := ⟨[], "18446744073709553664".toList, [], [], [], 1,
      List.forall_mem_nil _, by decide, List.all_eq_true.1 rfl, List.forall_mem_nil _, by decide,
      List.forall_mem_nil _⟩
    last.text = "\t16777215  tB\n" ∧ readSize last.text = .ok (16777215 * 2 ^ 40) ∧
      next.text = "0016777216Tb " ∧
      (readSize next.text = .error .sizeOverflow ∨ readSize next.text = .error .negativeSize) ∧
      near.text = "18446744073709553664" ∧ readSize near.text = .ok Number.maxWord := by
  intro last next near
  refine ⟨rfl, (readSize_whole last).1 (by decide), rfl, ?_, rfl, ?_⟩
  · exact (readSize_whole next).2.2 (by decide) (by decide)
  · exact (readSize_whole near).2.1 rfl (by decide) (by decide)

/-- The number after the greatest one of 64 bits is not refused. -/
theorem readSize_past_maxWord :
    Number.maxWord < Number.ofDigits "18446744073709551616".toList ∧
      readSize "18446744073709551616" = .ok Number.maxWord := by
  decide +kernel

end TagQuery.Search
