import TagQuery.Item.Predicate
import TagQuery.Proofs.Expr.Stars

/-!
# Buckets in a row

The buckets of a table follow one another when each starts where the one before it ends. Then every
rating falls into a bucket, and the bounds on either side of it tell which one this is. So a
relation between stars, which is resolved to bounds of single buckets, is the relation between the
star of a rating and the one that is asked for.

One relation is resolved to something else: no rating has at least no stars, although all have more
than none.

## Main definitions

- `StarTable.Consecutive`: buckets that follow one another.
- `StarTable.FallsInto`: where a rating falls, and what the bounds tell about this.

## Main statements

- `StarTable.Consecutive.exists_fallsInto`: every rating falls into a bucket.
- `StarTable.holdsOn_resolve`: what a relation between stars means.
- `StarTable.predicate_stars_iff`: a relation between stars compares the star of a rating.
-/

namespace TagQuery

/-! ## Relations -/

namespace CompareOp

/-- What relations say of natural numbers. -/
theorem test_eq_decide (op : CompareOp) (m n : Nat) :
    op.test m n = match op with
      | .equal => decide (m = n)
      | .greater => decide (n < m)
      | .greaterOrEqual => decide (n ≤ m)
      | .less => decide (m < n)
      | .lessOrEqual => decide (m ≤ n) := by
  rw [Bool.eq_iff_iff]
  cases op <;> simp [test, holds, Nat.compare_eq_gt, Nat.compare_eq_lt] <;> omega

/-- Bytes are in the same relations as the numbers they stand for. -/
theorem test_toNat (op : CompareOp) (a b : UInt8) : op.test a.toNat b.toNat = op.test a b := by
  have hcompare : compare a.toNat b.toNat = compare a b := by
    simp only [compare, compareOfLessAndEq, UInt8.lt_iff_toNat_lt, ← UInt8.toNat_inj]
  rw [test, test, hcompare]

end CompareOp

/-! ## Buckets -/

namespace StarTable

/-- Buckets that follow one another, from a lower bound on: each starts at the finite bound where
the one before it ends, the bounds of no bucket decrease, and the last bucket has no upper bound. -/
inductive Consecutive : Option Real64 → List StarBucket → Prop
  | last (low : Option Real64) : Consecutive low [⟨low, none⟩]
  | cons {low : Option Real64} {high : Real64} {rest : List StarBucket}
      (hfinite : high.isFinite = true) (hordered : low.all (·.ble high) = true)
      (hrest : Consecutive (some high) rest) : Consecutive low (⟨low, some high⟩ :: rest)

/-- A rating falls into the bucket with index `i`: this is the first that holds it, and the bounds
of all buckets tell on which side of them it is. -/
structure FallsInto (rating : Real64) (buckets : List StarBucket) (i : Nat) : Prop where
  lt_length : i < buckets.length
  findIdx?_holds : buckets.findIdx? (·.holds rating) = some i
  /-- It is below the upper bounds from this bucket on. -/
  blt_high (j : Nat) : (buckets[j]?.bind (·.high)).all rating.blt = true ↔ i ≤ j
  /-- It is not below the lower bounds up to this bucket. -/
  low_ble {j : Nat} {b : StarBucket} (hj : buckets[j]? = some b) :
    b.low.all (·.ble rating) = true ↔ j ≤ i

section
variable {low : Option Real64} {high : Real64} {buckets rest : List StarBucket} {rating : Real64}

/-- A rating below the lower end is below all bounds. -/
theorem Consecutive.blt_of_blt_low (h : Consecutive low buckets)
    (hlow : low.any rating.blt = true) :
    ∀ b ∈ buckets, b.low.any rating.blt = true ∧ b.high.all rating.blt = true := by
  induction h with
  | last low => exact List.forall_mem_singleton.2 ⟨hlow, rfl⟩
  | @cons low high rest _ hordered _ ih =>
    cases low with
    | none => contradiction
    | some low =>
      have hhigh : rating.blt high = true := Real64.blt_of_blt_of_ble hlow hordered
      exact List.forall_mem_cons.2 ⟨⟨hlow, hhigh⟩, ih hhigh⟩

theorem fallsInto_singleton (hlow : low.all (·.ble rating) = true) :
    FallsInto rating [⟨low, none⟩] 0 where
  lt_length := Nat.one_pos
  findIdx?_holds := by simp [StarBucket.holds, hlow]
  blt_high j := by cases j <;> simp
  low_ble {j b} hj := by
    cases j with
    | zero =>
      obtain rfl := Option.some.inj hj
      simp [hlow]
    | succ j => contradiction

/-- The first bucket holds the rating, and all bounds of the others are above it. -/
theorem fallsInto_cons_zero (hrest : Consecutive (some high) rest) (hrating : rating ≠ .nan)
    (hlow : low.all (·.ble rating) = true) (hhigh : rating.blt high = true) :
    FallsInto rating (⟨low, some high⟩ :: rest) 0 where
  lt_length := Nat.succ_pos _
  findIdx?_holds := by simp [List.findIdx?_cons, StarBucket.holds, hlow, hhigh]
  blt_high j := by
    simp only [Nat.zero_le, iff_true]
    cases j with
    | zero => exact hhigh
    | succ j =>
      rw [List.getElem?_cons_succ]
      cases hj : rest[j]? with
      | none => rfl
      | some b => exact (hrest.blt_of_blt_low hhigh b (List.mem_of_getElem? hj)).2
  low_ble {j b} hj := by
    cases j with
    | zero =>
      obtain rfl := Option.some.inj hj
      simp [hlow]
    | succ j =>
      have hbelow := (hrest.blt_of_blt_low hhigh b (List.mem_of_getElem? hj)).1
      obtain ⟨x, hx, hlt⟩ := (Option.any_eq_true _ _).1 hbelow
      have hnot : x.ble rating = false := by
        rw [Real64.ble_eq_not_blt hrating (Real64.ne_nan_of_blt hlt), hlt]
        rfl
      simp [hx, hnot]

/-- The first bound is not above the rating, which falls into one of the other buckets. -/
theorem FallsInto.cons {i : Nat} (h : FallsInto rating rest i)
    (hlow : low.all (·.ble rating) = true) (hhigh : rating.blt high = false) :
    FallsInto rating (⟨low, some high⟩ :: rest) (i + 1) where
  lt_length := Nat.succ_lt_succ h.lt_length
  findIdx?_holds := by
    have hholds : StarBucket.holds ⟨low, some high⟩ rating = false := by
      simp [StarBucket.holds, hhigh]
    simp [List.findIdx?_cons, hholds, h.findIdx?_holds]
  blt_high j := by
    cases j with
    | zero => simp [hhigh]
    | succ j => simpa using h.blt_high j
  low_ble {j b} hj := by
    cases j with
    | zero =>
      obtain rfl := Option.some.inj hj
      simp [hlow]
    | succ j => simpa using h.low_ble hj

/-- Every rating that is not below the lower end falls into a bucket. -/
theorem Consecutive.exists_fallsInto (h : Consecutive low buckets) (hrating : rating ≠ .nan)
    (hlow : low.all (·.ble rating) = true) : ∃ i, FallsInto rating buckets i := by
  induction h with
  | last low => exact ⟨0, fallsInto_singleton hlow⟩
  | @cons low high rest hfinite _ hrest ih =>
    cases hhigh : rating.blt high with
    | true => exact ⟨0, fallsInto_cons_zero hrest hrating hlow hhigh⟩
    | false =>
      have habove : high.ble rating = true := by
        rw [Real64.ble_eq_not_blt hrating (Real64.ne_nan_of_isFinite hfinite), hhigh]
        rfl
      obtain ⟨i, hi⟩ := ih habove
      exact ⟨i + 1, hi.cons hlow hhigh⟩

end

/-! ## Relations between stars -/

/-- A better rating falls into no earlier bucket. -/
theorem FallsInto.mono {buckets : List StarBucket} {x y : Real64} {i j : Nat}
    (hx : FallsInto x buckets i) (hy : FallsInto y buckets j) (hle : x.ble y = true) : i ≤ j := by
  refine (hx.blt_high j).1 ?_
  have hall := (hy.blt_high j).2 (Nat.le_refl j)
  cases hhigh : buckets[j]?.bind (·.high) with
  | none => rfl
  | some high =>
    rw [hhigh] at hall
    exact Real64.blt_of_ble_of_blt hle hall

theorem FallsInto.starOf_eq {t : StarTable} {rating : Real64} {i : Nat}
    (h : FallsInto rating t.buckets i) : t.starOf rating = some (UInt8.ofNat i + 1) := by
  rw [starOf, h.findIdx?_holds]
  rfl

theorem bucket?_of_ne_zero {t : StarTable} {star : UInt8} (h : star ≠ 0) :
    t.bucket? star = t.buckets[star.toNat - 1]? := if_neg h

/-- The stars that a table has. -/
theorem isSome_bucket? {t : StarTable} {star : UInt8} :
    (t.bucket? star).isSome = true ↔ 1 ≤ star.toNat ∧ star.toNat ≤ t.buckets.length := by
  by_cases h : star = 0
  · simp [h, bucket?]
  · have hpos : 0 < star.toNat := UInt8.pos_iff_ne_zero.2 h
    rw [bucket?_of_ne_zero h, isSome_getElem?]
    omega

/-- Parts that are always true make no difference. -/
theorem holdsOn_filter_not_isAlways (scale : RatingScale) (item : Item) (parts : List Expr) :
    (Expr.conjunction (parts.filter fun e => !e.isAlways)).holdsOn scale item =
      parts.all (Expr.holdsOn scale item) := by
  rw [Expr.holdsOn_conjunction, List.all_filter]
  refine List.all_congr rfl fun e => ?_
  cases he : e.isAlways with
  | false => rfl
  | true =>
    rw [Pass.eq_always_of_isAlways he]
    rfl

/-- There is one more star, unless there is none that could be written. -/
theorem toNat_add_one {star : UInt8} (h : star.toNat < 255) :
    (star + 1).toNat = star.toNat + 1 := by
  rw [UInt8.toNat_add]
  exact Nat.mod_eq_of_lt (Nat.succ_lt_succ h)

theorem toNat_ofNat_add_one {i : Nat} (h : i < 255) : (UInt8.ofNat i + 1).toNat = i + 1 := by
  have hi : (UInt8.ofNat i).toNat = i := UInt8.toNat_ofNat_of_lt' (Nat.lt_succ_of_lt h)
  rw [toNat_add_one (hi.symm ▸ h), hi]

section
variable {t : StarTable} {scale : RatingScale} {item : Item} {rating : Rating} {i : Nat}
  (hrating : item.ratings.get? scale.category = some rating)
  (hi : FallsInto rating.value t.buckets i)

include hrating in
theorem holdsOn_rating (op : CompareOp) (bound : Real64) :
    (Expr.rating ⟨op, bound⟩).holdsOn scale item = op.testReal rating.value bound := by
  change (item.ratings.get? scale.category).any _ = _
  rw [hrating]
  rfl

include hi in
theorem holdsOn_unmatched : t.unmatched.holdsOn scale item = false := by
  have hne : t.buckets ≠ [] := List.ne_nil_of_length_pos (Nat.zero_lt_of_lt hi.lt_length)
  have hnever : t.unmatched = .never := by simp [unmatched, hne]
  rw [hnever]
  rfl

include hrating hi

theorem holdsOn_atLeast (star : UInt8) :
    (t.atLeast star).holdsOn scale item = true ↔ 1 ≤ star.toNat ∧ star.toNat ≤ i + 1 := by
  have hnever : t.unmatched.holdsOn scale item = false := holdsOn_unmatched hi
  unfold atLeast
  by_cases hstar : star = 0
  · simp [hstar, bucket?, hnever]
  · have hpos : 0 < star.toNat := UInt8.pos_iff_ne_zero.2 hstar
    rw [bucket?_of_ne_zero hstar]
    cases hb : t.buckets[star.toNat - 1]? with
    | none =>
      have hlength := List.getElem?_eq_none_iff.1 hb
      have hlt := hi.lt_length
      simp only [hnever, Bool.false_eq_true, false_iff]
      omega
    | some b =>
      have hlow := hi.low_ble hb
      obtain ⟨low, high⟩ := b
      cases low with
      | none =>
        have htrue : Expr.always.holdsOn scale item = true := rfl
        have hle : star.toNat - 1 ≤ i := hlow.1 rfl
        simp only [htrue, true_iff]
        omega
      | some low =>
        dsimp only
        rw [holdsOn_rating hrating, Real64.testReal_greaterOrEqual]
        exact hlow.trans (by omega)

theorem holdsOn_atMost (star : UInt8) :
    (t.atMost star).holdsOn scale item = true ↔ i + 1 ≤ star.toNat := by
  unfold atMost
  by_cases hstar : star = 0
  · rw [if_pos hstar, holdsOn_unmatched hi, hstar]
    exact iff_of_false Bool.false_ne_true (Nat.not_succ_le_zero i)
  · have hpos : 0 < star.toNat := UInt8.pos_iff_ne_zero.2 hstar
    have hhigh := hi.blt_high (star.toNat - 1)
    rw [if_neg hstar, bucket?_of_ne_zero hstar]
    cases hb : t.buckets[star.toNat - 1]?.bind (·.high) with
    | none =>
      rw [hb] at hhigh
      have htrue : Expr.always.holdsOn scale item = true := rfl
      have hle : i ≤ star.toNat - 1 := hhigh.1 rfl
      simp only [htrue, true_iff]
      omega
    | some high =>
      rw [hb] at hhigh
      dsimp only
      rw [holdsOn_rating hrating]
      exact hhigh.trans (by omega)

theorem holdsOn_resolve_less (star : UInt8) :
    (t.resolve ⟨.less, star⟩).holdsOn scale item = true ↔ i + 1 < star.toNat := by
  have hatMost := holdsOn_atMost hrating hi
  simp only [resolve]
  split
  · next hle =>
    have hle : star.toNat ≤ 1 := hle
    rw [holdsOn_unmatched hi]
    exact iff_of_false Bool.false_ne_true (by omega)
  · next hle =>
    have hlt : 1 < star.toNat := Nat.lt_of_not_le hle
    have hpred : (star - 1).toNat = star.toNat - 1 :=
      UInt8.toNat_sub_of_le _ _ (Nat.le_of_lt hlt)
    rw [hatMost, hpred]
    omega

theorem holdsOn_resolve_greater (hsize : i < 255) (star : UInt8) :
    (t.resolve ⟨.greater, star⟩).holdsOn scale item = true ↔ star.toNat < i + 1 := by
  have hatLeast := holdsOn_atLeast hrating hi
  simp only [resolve]
  split
  · next hnext =>
    have hlt : star.toNat < 255 := of_decide_eq_true (Bool.and_eq_true_iff.1 hnext).1
    rw [hatLeast, toNat_add_one hlt]
    omega
  · next hnext =>
    -- The table has no star above, so the rating has none either.
    have hle : i < star.toNat := by
      by_cases hlt : star.toNat < 255
      · have hnone : ¬(t.bucket? (star + 1)).isSome = true :=
          fun hsome => hnext (Bool.and_eq_true_iff.2 ⟨decide_eq_true hlt, hsome⟩)
        rw [isSome_bucket?, toNat_add_one hlt] at hnone
        have := hi.lt_length
        omega
      · omega
    rw [holdsOn_unmatched hi]
    exact iff_of_false Bool.false_ne_true (by omega)

theorem holdsOn_resolve_equal (star : UInt8) :
    (t.resolve ⟨.equal, star⟩).holdsOn scale item = true ↔ i + 1 = star.toNat := by
  have hatLeast := holdsOn_atLeast hrating hi
  have hatMost := holdsOn_atMost hrating hi
  simp only [resolve]
  split
  · next hnone =>
    have hnot : ¬(1 ≤ star.toNat ∧ star.toNat ≤ t.buckets.length) := by
      rw [← isSome_bucket?]
      simpa using hnone
    have hlt := hi.lt_length
    rw [holdsOn_unmatched hi]
    exact iff_of_false Bool.false_ne_true (by omega)
  · rw [holdsOn_filter_not_isAlways, List.all_cons, List.all_cons, List.all_nil, Bool.and_true,
      Bool.and_eq_true_iff, hatLeast, hatMost]
    omega

/-- A relation between stars is that of the star of the rating, but that no rating has at least no
stars. -/
theorem holdsOn_resolve (hsize : i < 255) (c : Comparison UInt8) :
    (t.resolve c).holdsOn scale item = true ↔
      c.op.test (i + 1) c.value.toNat = true ∧ c ≠ ⟨.greaterOrEqual, 0⟩ := by
  obtain ⟨op, star⟩ := c
  rw [CompareOp.test_eq_decide]
  have hzero : (⟨op, star⟩ : Comparison UInt8) ≠ ⟨.greaterOrEqual, 0⟩ ↔
      (op = .greaterOrEqual → star.toNat ≠ 0) := by
    rw [Ne, Comparison.mk.injEq, ← UInt8.toNat_inj]
    exact not_and
  rw [hzero]
  cases op with
  | less => simpa using holdsOn_resolve_less hrating hi star
  | greater => simpa using holdsOn_resolve_greater hrating hi hsize star
  | equal => simpa using holdsOn_resolve_equal hrating hi star
  | greaterOrEqual =>
    have hatLeast := holdsOn_atLeast hrating hi star
    simp only [resolve, hatLeast, decide_eq_true_iff, forall_const]
    omega
  | lessOrEqual => simpa [resolve] using holdsOn_atMost hrating hi star

end

/-! ## Predicates -/

theorem Consecutive.isFinite_of_mem {low : Option Real64} {buckets : List StarBucket}
    (h : Consecutive low buckets) (hlow : ∀ x, low = some x → x.isFinite = true) :
    ∀ b ∈ buckets, ∀ x, b.low = some x ∨ b.high = some x → x.isFinite = true := by
  induction h with
  | last low => simpa using hlow
  | cons hfinite _ _ ih =>
    refine List.forall_mem_cons.2 ⟨?_, ih ?_⟩
    · rintro x (hx | hx)
      · exact hlow x hx
      · exact Option.some.inj hx ▸ hfinite
    · intro x hx
      exact Option.some.inj hx ▸ hfinite

theorem Consecutive.hasFiniteBounds {t : StarTable} (h : Consecutive none t.buckets) :
    t.HasFiniteBounds := by
  intro x hx
  obtain ⟨b, hb, hx⟩ := List.mem_flatMap.1 hx
  exact h.isFinite_of_mem (fun _ hnone => nomatch hnone) b hb x (by simpa using hx)

/-- A relation between stars whose bounds are finite has a predicate. -/
theorem predicate_resolve {t : StarTable} (h : t.HasFiniteBounds) (scale : RatingScale)
    (c : Comparison UInt8) :
    (t.resolve c).predicate scale = .ok ((t.resolve c).holdsOn scale) := by
  refine Expr.predicate_eq_ok.2 ⟨Expr.fault?_resolveStars_eq_none.2 fun l hl => ?_, rfl⟩
  obtain ⟨op, x, hx, rfl⟩ := Expr.onlyBounds_resolve t c l hl
  exact if_pos (h x hx)

/-- A relation between stars is the one between ratings that the table resolves it to. -/
theorem predicate_stars (t : StarTable) (category : String) (c : Comparison UInt8) :
    (Expr.stars c).predicate ⟨category, t⟩ = (t.resolve c).predicate ⟨category, t⟩ := by
  unfold Expr.predicate
  rw [Expr.resolveStars_resolve]
  rfl

/-- In a table of up to 255 buckets that follow one another, every rating has a star, and a relation
between stars accepts the files whose star is in it. Only "at least none" accepts no file, although
every star is in it. -/
theorem predicate_stars_iff {t : StarTable} (ht : Consecutive none t.buckets)
    (hsize : t.buckets.length ≤ 255) {category : String} {item : Item} {rating : Rating}
    (hrating : item.ratings.get? category = some rating) (hvalue : rating.value ≠ .nan)
    (c : Comparison UInt8) :
    ∃ star p, t.starOf rating.value = some star ∧
      (Expr.stars c).predicate ⟨category, t⟩ = .ok p ∧
      (p item = true ↔ c.accepts star = true ∧ c ≠ ⟨.greaterOrEqual, 0⟩) := by
  obtain ⟨i, hi⟩ := ht.exists_fallsInto hvalue rfl
  have hlt : i < 255 := Nat.lt_of_lt_of_le hi.lt_length hsize
  refine ⟨_, (t.resolve c).holdsOn ⟨category, t⟩, hi.starOf_eq, ?_, ?_⟩
  · rw [predicate_stars, predicate_resolve ht.hasFiniteBounds]
  · rw [holdsOn_resolve hrating hi hlt, Comparison.accepts, ← CompareOp.test_toNat,
      toNat_ofNat_add_one hlt]

/-- A rating at the bound of two buckets has two stars, which are more than one. -/
theorem predicate_stars_iff_two_stars :
    let t : StarTable := ⟨[⟨none, some (.zero false)⟩, ⟨some (.zero false), none⟩]⟩
    let item : Item := ⟨"", 0, "", [], ∅, ∅, [], ∅, ⟨[("", ⟨.zero true, 1⟩)], by decide⟩⟩
    Consecutive none t.buckets ∧ t.buckets.length ≤ 255 ∧
      item.ratings.get? "" = some ⟨.zero true, 1⟩ ∧ Real64.zero true ≠ .nan ∧
      ∃ p, t.starOf (.zero true) = some 2 ∧ (Expr.stars ⟨.greater, 1⟩).predicate ⟨"", t⟩ = .ok p ∧
        p item = true := by
  intro t item
  have ht : Consecutive none t.buckets := .cons rfl rfl (.last _)
  have hsize : t.buckets.length ≤ 255 := by decide
  have hrating : item.ratings.get? "" = some ⟨.zero true, 1⟩ := rfl
  have hvalue : Real64.zero true ≠ .nan := fun hnan => Real64.noConfusion hnan
  have htwo : t.starOf (.zero true) = some 2 := by decide
  obtain ⟨star, p, hstar, hp, hiff⟩ := predicate_stars_iff ht hsize hrating hvalue ⟨.greater, 1⟩
  obtain rfl : 2 = star := Option.some.inj (htwo.symm.trans hstar)
  exact ⟨ht, hsize, hrating, hvalue, p, htwo, hp, hiff.2 (by decide)⟩

/-- A file with one star has at least none, and yet it is not accepted. -/
theorem predicate_stars_at_least_zero :
    let t : StarTable := ⟨[⟨none, none⟩]⟩
    let item : Item := ⟨"", 0, "", [], ∅, ∅, [], ∅, ⟨[("", ⟨.zero false, 1⟩)], by decide⟩⟩
    Consecutive none t.buckets ∧ item.ratings.get? "" = some ⟨.zero false, 1⟩ ∧
      t.starOf (.zero false) = some 1 ∧
      (⟨.greaterOrEqual, 0⟩ : Comparison UInt8).accepts 1 = true ∧
      ∃ p, (Expr.stars ⟨.greaterOrEqual, 0⟩).predicate ⟨"", t⟩ = .ok p ∧ p item = false := by
  intro t item
  exact ⟨.last none, rfl, by decide, by decide, _, rfl, rfl⟩

end StarTable
end TagQuery
