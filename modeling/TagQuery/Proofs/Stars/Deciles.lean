import TagQuery.Proofs.Stars.Buckets

/-!
# Stars from deciles

A table made of ratings has five buckets, bounded by members of the finite ratings in increasing
order. How many of them are below a bound, and how many are at most the bound, follows from its
index alone, also where many ratings are equal. Since the buckets follow one another, every rating
has a star, better ratings have no fewer stars, and relations between stars mean what they say.

## Main statements

- `lt_countP_iff`: in an ordered list, what holds of a member tells for how many members it holds.
- `Real64.pairwise_mergeSort_totalLe`: sorted finite numbers are in increasing order.
- `StarTable.ofRatings_deciles`: what is known about the table of a population of ratings.
-/

namespace TagQuery

/-! ## Counting in ordered lists -/

/-- Where a property of a member is one of all members before it, the members that have it are the
first ones. -/
theorem lt_countP_iff {α : Type} {p : α → Bool} {l : List α}
    (h : l.Pairwise fun x y => p y = true → p x = true) {k : Nat} {x : α} (hx : l[k]? = some x) :
    k < l.countP p ↔ p x = true := by
  induction l generalizing k with
  | nil => contradiction
  | cons y l ih =>
    obtain ⟨hy, hl⟩ := List.pairwise_cons.1 h
    cases hp : p y with
    | true =>
      rw [List.countP_cons_of_pos hp]
      cases k with
      | zero =>
        obtain rfl := Option.some.inj hx
        simp [hp]
      | succ k => rw [Nat.succ_lt_succ_iff, ih hl hx]
    | false =>
      -- no later member has the property either
      have hnone : ∀ z ∈ y :: l, ¬p z = true := by
        refine List.forall_mem_cons.2 ⟨by simp [hp], fun z hz hpz => ?_⟩
        simp [hy z hz hpz] at hp
      rw [List.countP_eq_zero.2 hnone]
      simp [hnone x (List.mem_of_getElem? hx)]

/-! ## Sorting numbers -/

namespace Real64

/-- The place of a finite number in the total order, in which each has two neighbouring places: one
for the negative number and one for the positive. -/
def rank : Real64 → Int
  | .finite negative steps _ => 2 * signedSteps negative steps + (if negative then 0 else 1)
  | _ => 0

theorem totalLe_eq {x y : Real64} (hx : x.isFinite = true) (hy : y.isFinite = true) :
    totalLe x y = decide (x.rank ≤ y.rank) := by
  cases x with
  | nan | infinity _ => contradiction
  | finite a m _ =>
    cases y with
    | nan | infinity _ => contradiction
    | finite b n _ =>
      rw [Bool.eq_iff_iff]
      simp only [totalLe, rank, Bool.or_eq_true, Bool.and_eq_true, decide_eq_true_eq, beq_iff_eq]
      cases a <;> cases b <;> simp <;> omega

theorem ble_of_rank_le {x y : Real64} (hx : x.isFinite = true) (hy : y.isFinite = true)
    (h : x.rank ≤ y.rank) : x.ble y = true := by
  cases x with
  | nan | infinity _ => contradiction
  | finite a m _ =>
    cases y with
    | nan | infinity _ => contradiction
    | finite b n _ =>
      refine ble_iff.2 ⟨_, _, rfl, rfl, ?_⟩
      revert h
      cases a <;> cases b <;> simp [rank] <;> omega

/-- Sorted finite numbers are in increasing order. -/
theorem pairwise_mergeSort_totalLe {l : List Real64} (h : ∀ x ∈ l, x.isFinite = true) :
    (l.mergeSort totalLe).Pairwise fun x y => x.ble y = true := by
  have hmap : (l.mergeSort totalLe).map rank = (l.map rank).mergeSort fun a b => decide (a ≤ b) :=
    List.map_mergeSort fun x hx y hy => totalLe_eq (h x hx) (h y hy)
  have hranks : ((l.mergeSort totalLe).map rank).Pairwise (· ≤ ·) := by
    have htrans (a b c : Int) (hab : decide (a ≤ b) = true) (hbc : decide (b ≤ c) = true) :
        decide (a ≤ c) = true := by grind
    have htotal (a b : Int) : (decide (a ≤ b) || decide (b ≤ a)) = true := by grind
    rw [hmap]
    simpa using List.pairwise_mergeSort htrans htotal (l.map rank)
  rw [List.pairwise_map] at hranks
  refine hranks.imp_of_mem fun {x y} hx hy hle => ?_
  exact ble_of_rank_le (h x (List.mem_mergeSort.1 hx)) (h y (List.mem_mergeSort.1 hy)) hle

end Real64

/-! ## Deciles -/

namespace StarTable

theorem ble_of_getElem? {sorted : List Real64} (hfinite : ∀ x ∈ sorted, x.isFinite = true)
    (hsorted : sorted.Pairwise fun x y => x.ble y = true) {i j : Nat} (hij : i ≤ j) {x y : Real64}
    (hx : sorted[i]? = some x) (hy : sorted[j]? = some y) : x.ble y = true := by
  obtain ⟨hi, rfl⟩ := List.getElem?_eq_some_iff.1 hx
  obtain ⟨hj, rfl⟩ := List.getElem?_eq_some_iff.1 hy
  rcases Nat.lt_or_eq_of_le hij with hlt | rfl
  · exact List.pairwise_iff_getElem.1 hsorted i j hi hj hlt
  · exact Real64.ble_refl (Real64.ne_nan_of_isFinite (hfinite _ (List.getElem_mem hi)))

/-- The start of a tenth is a member of the ratings: as many of them are below it as its index says,
at most, and more than that are not above it. -/
theorem exists_decile {sorted : List Real64} (hfinite : ∀ x ∈ sorted, x.isFinite = true)
    (hsorted : sorted.Pairwise fun x y => x.ble y = true) (hne : sorted ≠ []) {k : Nat}
    (hk : k < 10) :
    ∃ b, decile sorted k = some b ∧ sorted[k * sorted.length / 10]? = some b ∧
      sorted.countP (·.blt b) ≤ k * sorted.length / 10 ∧
      k * sorted.length / 10 < sorted.countP (·.ble b) := by
  have hpos : 0 < sorted.length := List.length_pos_iff.2 hne
  have hlt : k * sorted.length / 10 < sorted.length := by
    refine Nat.div_lt_of_lt_mul ?_
    exact Nat.mul_lt_mul_of_pos_right hk hpos
  have hget : sorted[k * sorted.length / 10]? = some sorted[k * sorted.length / 10] :=
    List.getElem?_eq_getElem hlt
  have hb := hfinite _ (List.getElem_mem hlt)
  refine ⟨_, ?_, hget, ?_, ?_⟩
  · rw [decile, Nat.min_eq_left (by omega), hget]
  · have hbelow := lt_countP_iff (p := (·.blt sorted[k * sorted.length / 10]))
      (hsorted.imp fun hxy hy => Real64.blt_of_ble_of_blt hxy hy) hget
    rw [Real64.blt_irrefl] at hbelow
    simpa using hbelow
  · have hupto := lt_countP_iff (p := (·.ble sorted[k * sorted.length / 10]))
      (hsorted.imp fun hxy hy => Real64.ble_trans hxy hy) hget
    exact hupto.2 (Real64.ble_refl (Real64.ne_nan_of_isFinite hb))

/-- The tenths of one star end where those of the next one start. -/
theorem map_decileBucket (ratings : List Real64) :
    (List.range maxStars.toNat).map (fun i => decileBucket ratings (UInt8.ofNat i + 1)) =
      [⟨none, decile ratings 1⟩, ⟨decile ratings 1, decile ratings 3⟩,
        ⟨decile ratings 3, decile ratings 7⟩, ⟨decile ratings 7, decile ratings 9⟩,
        ⟨decile ratings 9, none⟩] := rfl

/-- The buckets of a table made of ratings, of which one is finite at least, and how many of the
finite ones are on which side of a bound. -/
theorem exists_buckets_ofRatings {ratings : List Real64} (h : ∃ r ∈ ratings, r.isFinite = true) :
    let finite := ratings.filter Real64.isFinite
    ∃ b₁ b₃ b₇ b₉ : Real64,
      (ofRatings ratings).buckets = [⟨none, some b₁⟩, ⟨some b₁, some b₃⟩, ⟨some b₃, some b₇⟩,
        ⟨some b₇, some b₉⟩, ⟨some b₉, none⟩] ∧
      b₁.ble b₃ = true ∧ b₃.ble b₇ = true ∧ b₇.ble b₉ = true ∧
      ∀ k b, (k, b) ∈ [(1, b₁), (3, b₃), (7, b₇), (9, b₉)] →
        finite.countP (·.blt b) ≤ k * finite.length / 10 ∧
        k * finite.length / 10 < finite.countP (·.ble b) := by
  intro finite
  let sorted := finite.mergeSort Real64.totalLe
  have hperm : sorted.Perm finite := List.mergeSort_perm _ _
  have hfinite : ∀ x ∈ sorted, x.isFinite = true := fun x hx =>
    (List.mem_filter.1 (hperm.mem_iff.1 hx)).2
  have hsorted : sorted.Pairwise fun x y => x.ble y = true :=
    Real64.pairwise_mergeSort_totalLe fun x hx => (List.mem_filter.1 hx).2
  have hne : sorted ≠ [] := by
    obtain ⟨r, hr, hr'⟩ := h
    exact List.ne_nil_of_mem (hperm.mem_iff.2 (List.mem_filter.2 ⟨hr, hr'⟩))
  obtain ⟨b₁, hb₁, hi₁, hcount₁⟩ := exists_decile hfinite hsorted hne (k := 1) (by decide)
  obtain ⟨b₃, hb₃, hi₃, hcount₃⟩ := exists_decile hfinite hsorted hne (k := 3) (by decide)
  obtain ⟨b₇, hb₇, hi₇, hcount₇⟩ := exists_decile hfinite hsorted hne (k := 7) (by decide)
  obtain ⟨b₉, hb₉, hi₉, hcount₉⟩ := exists_decile hfinite hsorted hne (k := 9) (by decide)
  simp only [hperm.length_eq, hperm.countP_eq] at hcount₁ hcount₃ hcount₇ hcount₉
  have hle {k m : Nat} (hkm : k ≤ m) : k * sorted.length / 10 ≤ m * sorted.length / 10 :=
    Nat.div_le_div_right (Nat.mul_le_mul_right _ hkm)
  refine ⟨b₁, b₃, b₇, b₉, ?_, ble_of_getElem? hfinite hsorted (hle (by decide)) hi₁ hi₃,
    ble_of_getElem? hfinite hsorted (hle (by decide)) hi₃ hi₇,
    ble_of_getElem? hfinite hsorted (hle (by decide)) hi₇ hi₉, ?_⟩
  · have hnonempty : ¬sorted.isEmpty = true := by simpa using hne
    change (if sorted.isEmpty then ∅ else _ : StarTable).buckets = _
    rw [if_neg hnonempty, map_decileBucket, hb₁, hb₃, hb₇, hb₉]
  · intro k b hkb
    simp only [List.mem_cons, Prod.mk.injEq, List.not_mem_nil, or_false] at hkb
    rcases hkb with ⟨rfl, rfl⟩ | ⟨rfl, rfl⟩ | ⟨rfl, rfl⟩ | ⟨rfl, rfl⟩
    · exact hcount₁
    · exact hcount₃
    · exact hcount₇
    · exact hcount₉

/-- The buckets of a table made of ratings follow one another. -/
theorem consecutive_ofRatings {ratings : List Real64} (h : ∃ r ∈ ratings, r.isFinite = true) :
    Consecutive none (ofRatings ratings).buckets := by
  obtain ⟨b₁, b₃, b₇, b₉, hbuckets, h₁₃, h₃₇, h₇₉, -⟩ := exists_buckets_ofRatings h
  have hfinite : ∀ x ∈ (ofRatings ratings).bounds, x.isFinite = true :=
    hasFiniteBounds_ofRatings ratings
  simp only [bounds, hbuckets] at hfinite
  rw [hbuckets]
  exact .cons (hfinite _ (by simp)) rfl (.cons (hfinite _ (by simp)) h₁₃
    (.cons (hfinite _ (by simp)) h₃₇ (.cons (hfinite _ (by simp)) h₇₉ (.last _))))

/-- A table made of ratings, of which one is finite at least, has five buckets that follow one
another. The bound at the start of a tenth has as many finite ratings below it as come before that
tenth, at most, and with those that are equal to it there are more. Every rating but NaN has one of
five stars, better ratings have no fewer, and a query for a relation to a number of stars, by
whatever table it is evaluated, accepts the files whose rating has a star in that relation. -/
theorem ofRatings_deciles {ratings : List Real64} (h : ∃ r ∈ ratings, r.isFinite = true) :
    let finite := ratings.filter Real64.isFinite
    let t := ofRatings ratings
    (∃ b₁ b₃ b₇ b₉ : Real64,
      t.buckets = [⟨none, some b₁⟩, ⟨some b₁, some b₃⟩, ⟨some b₃, some b₇⟩, ⟨some b₇, some b₉⟩,
        ⟨some b₉, none⟩] ∧
      b₁.ble b₃ = true ∧ b₃.ble b₇ = true ∧ b₇.ble b₉ = true ∧
      ∀ k b, (k, b) ∈ [(1, b₁), (3, b₃), (7, b₇), (9, b₉)] →
        finite.countP (·.blt b) ≤ k * finite.length / 10 ∧
        k * finite.length / 10 < finite.countP (·.ble b)) ∧
    (∀ r, r ≠ .nan → ∃ star, t.starOf r = some star ∧ 1 ≤ star ∧ star ≤ 5) ∧
    (∀ r r' star star', r.ble r' = true → t.starOf r = some star → t.starOf r' = some star' →
      star ≤ star') ∧
    ∀ (op : CompareOp) (star : UInt8), 1 ≤ star → star ≤ maxStars →
      ∀ (scale : RatingScale) (item : Item) (rating : Rating),
        item.ratings.get? scale.category = some rating → rating.value ≠ .nan →
        ∃ s p, t.starOf rating.value = some s ∧ (t.resolve ⟨op, star⟩).predicate scale = .ok p ∧
          (p item = true ↔ op.test s star = true) := by
  intro finite t
  have ht : Consecutive none t.buckets := consecutive_ofRatings h
  have hlength : t.buckets.length = 5 := by
    obtain ⟨_, _, _, _, hbuckets, -⟩ := exists_buckets_ofRatings h
    exact congrArg List.length hbuckets
  have htoNat {r : Real64} {i : Nat} (hi : FallsInto r t.buckets i) :
      (UInt8.ofNat i + 1).toNat = i + 1 ∧ i < 5 := by
    have hlt := hi.lt_length
    exact ⟨toNat_ofNat_add_one (by omega), by omega⟩
  refine ⟨exists_buckets_ofRatings h, fun r hr => ?_, fun r r' star star' hle hstar hstar' => ?_,
    fun op star hpos hmax scale item rating hrating hvalue => ?_⟩
  · obtain ⟨i, hi⟩ := ht.exists_fallsInto hr rfl
    obtain ⟨hnat, hlt⟩ := htoNat hi
    refine ⟨_, hi.starOf_eq, ?_, ?_⟩ <;> rw [UInt8.le_iff_toNat_le, hnat]
    · exact Nat.succ_pos i
    · exact hlt
  · obtain ⟨hr, hr'⟩ := Real64.ne_nan_of_ble hle
    obtain ⟨i, hi⟩ := ht.exists_fallsInto hr rfl
    obtain ⟨j, hj⟩ := ht.exists_fallsInto hr' rfl
    obtain rfl := Option.some.inj (hi.starOf_eq.symm.trans hstar)
    obtain rfl := Option.some.inj (hj.starOf_eq.symm.trans hstar')
    rw [UInt8.le_iff_toNat_le, (htoNat hi).1, (htoNat hj).1]
    exact Nat.succ_le_succ (hi.mono hj hle)
  · obtain ⟨i, hi⟩ := ht.exists_fallsInto hvalue rfl
    obtain ⟨hnat, hlt⟩ := htoNat hi
    have hne : (⟨op, star⟩ : Comparison UInt8) ≠ ⟨.greaterOrEqual, 0⟩ := by
      rintro ⟨⟩
      contradiction
    refine ⟨_, (t.resolve ⟨op, star⟩).holdsOn scale, hi.starOf_eq,
      predicate_resolve ht.hasFiniteBounds scale _, ?_⟩
    rw [holdsOn_resolve hrating hi (by omega), ← CompareOp.test_toNat, hnat]
    exact and_iff_left hne

/-- A zero is the only finite rating, so that it is all the bounds: a zero with the other sign is at
least as good, and has five stars. -/
theorem ofRatings_deciles_zero :
    let ratings : List Real64 := [.nan, .zero false, .infinity false]
    let t := ofRatings ratings
    let item : Item := ⟨"", 0, "", [], ∅, ∅, [], ∅, ⟨[("", ⟨.zero true, 2⟩)], by decide⟩⟩
    (∃ r ∈ ratings, r.isFinite = true) ∧ (1 : UInt8) ≤ 4 ∧ 4 ≤ maxStars ∧
      item.ratings.get? "" = some ⟨.zero true, 2⟩ ∧ Real64.zero true ≠ .nan ∧
      ∃ p, t.starOf (.zero true) = some 5 ∧ (t.resolve ⟨.greater, 4⟩).predicate ⟨"", ∅⟩ = .ok p ∧
        p item = true := by
  intro ratings t item
  have hratings : ∃ r ∈ ratings, r.isFinite = true := ⟨.zero false, by simp [ratings], rfl⟩
  have hpos : (1 : UInt8) ≤ 4 := by decide
  have hmax : 4 ≤ maxStars := by decide
  have hrating : item.ratings.get? "" = some ⟨.zero true, 2⟩ := rfl
  have hvalue : Real64.zero true ≠ .nan := fun hnan => Real64.noConfusion hnan
  have hsorted : (ratings.filter Real64.isFinite).mergeSort Real64.totalLe = [.zero false] :=
    List.mergeSort_singleton _
  have hfive : t.starOf (.zero true) = some 5 := by
    change (ofRatings ratings).starOf _ = _
    rw [ofRatings, hsorted]
    decide
  obtain ⟨-, -, -, hqueries⟩ := ofRatings_deciles hratings
  obtain ⟨s, p, hs, hp, hiff⟩ := hqueries .greater 4 hpos hmax ⟨"", ∅⟩ item _ hrating hvalue
  obtain rfl : 5 = s := Option.some.inj (hfive.symm.trans hs)
  exact ⟨hratings, hpos, hmax, hrating, hvalue, p, hfive, hp, hiff.2 (by decide)⟩

end StarTable
end TagQuery
