import Mathlib.GroupTheory.SpecificGroups.Dihedral
import TagQuery.Proofs.Search.Kinship

/-!
# Turned and reflected files

The symmetries of the square are a group that acts on its cells, and so on hashes: a hash under a
symmetry has the same bits at other places. The variants of a hash are its orbit. Orbits are equal
or disjoint, so that to be a variant of one another is an equivalence, and their sizes divide the
number of symmetries.

## Main definitions

- `Grid.motion`: the symmetry of a member of the dihedral group.
- `Grid.setBits`: the set bits of a hash.
- `Item.HasGridHash`: a file is stored with a grid hash.
- `Catalog.FindsSimilar`: a search for files similar to a written hash finds a file.

## Main statements

- `Grid.isSet_smul`: the bits of a hash under a symmetry.
- `Grid.mem_variants`: the variants of a hash are its orbit.
- `Grid.length_variants_dvd`: their number divides eight.
- `Catalog.similar_equivalence`: what the variants of a hash have in common, and what is found by
  them.
-/

namespace TagQuery

namespace Search.Grid

/-! ## Symmetries -/

def turn : Symmetry := fun (r, c) => (c, 7 - r)

/-- The reflection in the middle line between the columns. -/
def flip : Symmetry := fun (r, c) => (r, 7 - c)

/-- The symmetry of a member of the dihedral group: some quarter turns, and then it may be
reflected. -/
def motion : DihedralGroup 4 → Symmetry
  | .r i => turn^[i.val]
  | .sr i => flip ∘ turn^[i.val]

theorem target_motion_lt : ∀ g, ∀ bit < 64, target (motion g) bit < 64 := by
  decide +kernel

theorem target_motion_one : ∀ bit < 64, target (motion 1) bit = bit := by
  decide +kernel

theorem target_motion_mul : ∀ g g', ∀ bit < 64,
    target (motion (g * g')) bit = target (motion g) (target (motion g') bit) := by
  decide +kernel

/-- Each of the symmetries is that of a member of the group. -/
theorem exists_motion :
    ∀ f ∈ symmetries, ∃ g, ∀ bit < 64, target f bit = target (motion g) bit := by
  decide +kernel

/-- Each member of the group has one of the symmetries. -/
theorem exists_symmetry :
    ∀ g, ∃ f ∈ symmetries, ∀ bit < 64, target f bit = target (motion g) bit := by
  decide +kernel

theorem target_motion_inv (g : DihedralGroup 4) {bit : Nat} (h : bit < 64) :
    target (motion g⁻¹) (target (motion g) bit) = bit := by
  rw [← target_motion_mul _ _ bit h, inv_mul_cancel, target_motion_one bit h]

theorem target_motion_self_inv (g : DihedralGroup 4) {bit : Nat} (h : bit < 64) :
    target (motion g) (target (motion g⁻¹) bit) = bit := by
  rw [← target_motion_mul _ _ bit h, mul_inv_cancel, target_motion_one bit h]

/-! ## Bits -/

/-- Hashes with the same bits are equal. -/
theorem eq_of_isSet {hash hash' : UInt64} (h : ∀ bit < 64, isSet hash bit = isSet hash' bit) :
    hash = hash' := by
  refine UInt64.toNat_inj.1 (Nat.eq_of_testBit_eq fun bit => ?_)
  by_cases hbit : bit < 64
  · exact h bit hbit
  · have hpow : 2 ^ 64 ≤ 2 ^ bit := Nat.pow_le_pow_right (by decide) (by omega)
    rw [Nat.testBit_lt_two_pow (hash.toNat_lt.trans_le hpow),
      Nat.testBit_lt_two_pow (hash'.toNat_lt.trans_le hpow)]

/-- The bits of a number to which powers of two are added one after another. -/
theorem testBit_foldl_or {p : Nat → Bool} {place : Nat → Nat} (bits : List Nat) (out bit : Nat) :
    (bits.foldl (fun out b => if p b then out ||| Nat.pow 2 (place b) else out) out).testBit bit =
      (out.testBit bit || bits.any fun b => p b && place b == bit) := by
  induction bits generalizing out with
  | nil => simp
  | cons b bits ih =>
    rw [List.foldl_cons, ih, List.any_cons]
    cases p b with
    | false => simp
    | true =>
      have hpow : (Nat.pow 2 (place b)).testBit bit = (place b == bit) := by
        rw [Nat.pow_eq, Nat.testBit_two_pow]
        rfl
      rw [if_pos rfl, Nat.testBit_or, hpow, Bool.true_and, Bool.or_assoc]

/-- A bit of a hash under a symmetry is set if a set bit goes there. -/
theorem isSet_move (f : Symmetry) (hash : UInt64) {bit : Nat} (h : bit < 64) :
    isSet (move f hash) bit = (List.range 64).any fun b => isSet hash b && target f b == bit := by
  unfold move
  rw [isSet, UInt64.toNat_ofNat', Nat.testBit_mod_two_pow, testBit_foldl_or]
  simp [h]

theorem move_congr {f f' : Symmetry} (h : ∀ bit < 64, target f bit = target f' bit)
    (hash : UInt64) : move f hash = move f' hash := by
  refine eq_of_isSet fun bit hbit => ?_
  rw [isSet_move f hash hbit, isSet_move f' hash hbit]
  refine Bool.eq_iff_iff.2 ?_
  simp only [List.any_eq_true, List.mem_range]
  refine exists_congr fun b => and_congr_right fun hb => ?_
  rw [h b hb]

/-! ## The action on hashes -/

instance instSMulHash : SMul (DihedralGroup 4) UInt64 := ⟨fun g hash => move (motion g) hash⟩

/-- A bit of a hash under a symmetry is the bit at the place that goes there. -/
theorem isSet_smul (g : DihedralGroup 4) (hash : UInt64) {bit : Nat} (h : bit < 64) :
    isSet (g • hash) bit = isSet hash (target (motion g⁻¹) bit) := by
  refine (isSet_move (motion g) hash h).trans (Bool.eq_iff_iff.2 ?_)
  simp only [List.any_eq_true, List.mem_range, Bool.and_eq_true, beq_iff_eq]
  constructor
  · rintro ⟨b, hb, hset, rfl⟩
    rwa [target_motion_inv g hb]
  · exact fun hset => ⟨_, target_motion_lt _ bit h, hset, target_motion_self_inv g h⟩

instance instMulActionHash : MulAction (DihedralGroup 4) UInt64 where
  one_smul hash := eq_of_isSet fun bit h => by
    rw [isSet_smul 1 hash h, inv_one, target_motion_one bit h]
  mul_smul g g' hash := eq_of_isSet fun bit h => by
    rw [isSet_smul _ hash h, isSet_smul g _ h, isSet_smul g' hash (target_motion_lt _ bit h),
      mul_inv_rev, target_motion_mul _ _ bit h]

def setBits (hash : UInt64) : Finset Nat :=
  (Finset.range 64).filter fun bit => isSet hash bit = true

theorem mem_setBits {hash : UInt64} {bit : Nat} :
    bit ∈ setBits hash ↔ bit < 64 ∧ isSet hash bit = true := by
  rw [setBits, Finset.mem_filter, Finset.mem_range]

/-- Symmetries move bits and neither set nor clear any. -/
theorem card_setBits_smul (g : DihedralGroup 4) (hash : UInt64) :
    (setBits (g • hash)).card = (setBits hash).card := by
  refine Finset.card_nbij' (target (motion g⁻¹)) (target (motion g)) ?_ ?_ ?_ ?_
  · intro bit hbit
    obtain ⟨hlt, hset⟩ := mem_setBits.1 hbit
    rw [isSet_smul g hash hlt] at hset
    exact mem_setBits.2 ⟨target_motion_lt _ bit hlt, hset⟩
  · intro bit hbit
    obtain ⟨hlt, hset⟩ := mem_setBits.1 hbit
    have hmoved : target (motion g) bit < 64 := target_motion_lt g bit hlt
    refine mem_setBits.2 ⟨hmoved, ?_⟩
    rwa [isSet_smul g hash hmoved, target_motion_inv g hlt]
  · exact fun bit hbit => target_motion_self_inv g (mem_setBits.1 hbit).1
  · exact fun bit hbit => target_motion_inv g (mem_setBits.1 hbit).1

/-! ## Different hashes -/

def addNew (seen : List UInt64) (hash : UInt64) : List UInt64 :=
  if hash ∈ seen then seen else seen ++ [hash]

theorem distinct_eq_foldl (hashes : List UInt64) : distinct hashes = hashes.foldl addNew [] := rfl

theorem mem_addNew {seen : List UInt64} {hash h : UInt64} :
    h ∈ addNew seen hash ↔ h ∈ seen ∨ h = hash := by
  unfold addNew
  split
  · next hmem => exact ⟨.inl, fun hh => hh.elim id fun heq => heq ▸ hmem⟩
  · simp

theorem nodup_addNew {seen : List UInt64} (h : seen.Nodup) (hash : UInt64) :
    (addNew seen hash).Nodup := by
  unfold addNew
  split
  · exact h
  · next hmem => simpa [List.nodup_append, h] using fun a ha => ne_of_mem_of_not_mem ha hmem

theorem head?_addNew {seen : List UInt64} {h : UInt64} (hseen : seen.head? = some h)
    (hash : UInt64) : (addNew seen hash).head? = some h := by
  unfold addNew
  split
  · exact hseen
  · rw [List.head?_append, hseen, Option.some_or]

theorem mem_distinct {hashes : List UInt64} {h : UInt64} : h ∈ distinct hashes ↔ h ∈ hashes := by
  have hfold (seen : List UInt64) : h ∈ hashes.foldl addNew seen ↔ h ∈ seen ∨ h ∈ hashes := by
    induction hashes generalizing seen with
    | nil => simp
    | cons hash hashes ih => rw [List.foldl_cons, ih, mem_addNew, List.mem_cons, or_assoc]
  rw [distinct_eq_foldl, hfold, or_iff_right List.not_mem_nil]

theorem nodup_distinct (hashes : List UInt64) : (distinct hashes).Nodup :=
  List.foldlRecOn hashes addNew List.nodup_nil fun _ h hash _ => nodup_addNew h hash

theorem head?_distinct (hash : UInt64) (hashes : List UInt64) :
    (distinct (hash :: hashes)).head? = some hash :=
  List.foldlRecOn (motive := fun seen => seen.head? = some hash) hashes addNew rfl
    fun _ h hash' _ => head?_addNew h hash'

/-! ## Variants -/

/-- The variants of a hash are its orbit. -/
theorem mem_variants {hash h : UInt64} :
    h ∈ variants .all hash ↔ h ∈ MulAction.orbit (DihedralGroup 4) hash := by
  rw [variants, mem_distinct, List.mem_map]
  constructor
  · rintro ⟨f, hf, rfl⟩
    obtain ⟨g, hg⟩ := exists_motion f hf
    exact ⟨g, (move_congr hg hash).symm⟩
  · rintro ⟨g, rfl⟩
    obtain ⟨f, hf, hg⟩ := exists_symmetry g
    exact ⟨f, hf, move_congr hg hash⟩

theorem nodup_variants (hash : UInt64) : (variants .all hash).Nodup := nodup_distinct _

/-- The first of the symmetries moves nothing. -/
theorem head?_variants (hash : UInt64) : (variants .all hash).head? = some hash := by
  have hone : move (fun (r, c) => (r, c)) hash = hash := by
    refine (move_congr (fun bit hbit => ?_) hash).trans (one_smul (DihedralGroup 4) hash)
    rfl
  conv_rhs => rw [← hone]
  exact head?_distinct _ _

/-- The variants of a hash are as many as it has places under symmetries. -/
theorem length_variants_dvd (hash : UInt64) : (variants .all hash).length ∣ 8 := by
  have horbit : MulAction.orbit (DihedralGroup 4) hash = ↑(variants .all hash).toFinset := by
    ext h
    rw [Finset.mem_coe, List.mem_toFinset, mem_variants]
  have hcard : Nat.card (DihedralGroup 4) = 8 := DihedralGroup.nat_card
  rw [← List.toFinset_card_of_nodup (nodup_variants hash), ← Set.ncard_coe_finset, ← horbit,
    ← MulAction.index_stabilizer, ← hcard]
  exact Subgroup.index_dvd_card _

/-- To be a variant of one another is an equivalence. -/
theorem perm_variants {hash h : UInt64} (hh : h ∈ variants .all hash) :
    (variants .all h).Perm (variants .all hash) := by
  refine (List.perm_ext_iff_of_nodup (nodup_variants h) (nodup_variants hash)).2 fun x => ?_
  rw [mem_variants, mem_variants, MulAction.orbit_eq_iff.2 (mem_variants.1 hh)]

end Search.Grid

/-! ## Searches for similar files -/

open Search
open Search.Grid (setBits variants)

/-- Different hashes are stored as different numbers. -/
theorem Search.Grid.stored_inj {hash h : UInt64} : stored hash = stored h ↔ hash = h := by
  rw [stored, stored, Int64.toInt_inj]
  exact ⟨congrArg Int64.toUInt64, congrArg UInt64.toInt64⟩

/-- A file is stored with a grid hash. -/
def Item.HasGridHash (item : Item) (hash : UInt64) : Prop :=
  item.details.get? gridHashDetail = some (.integer (Grid.stored hash))

instance (item : Item) (hash : UInt64) : Decidable (item.HasGridHash hash) :=
  inferInstanceAs (Decidable (_ = _))

/-- A file is among the similar ones if its hash is a variant. -/
theorem holdsOn_similar {item : Item} {h : UInt64} (hitem : item.HasGridHash h)
    (scale : RatingScale) (mode : SimilarMode) (hash : UInt64) :
    (similar mode hash).holdsOn scale item = true ↔ h ∈ variants mode hash := by
  have hdetail (x : UInt64) :
      (Expr.details gridHashDetail .equal (.integer (Grid.stored x))).holdsOn scale item = true ↔
        h = x := by
    change (item.details.get? gridHashDetail).any
      (·.compare .equal (.integer (Grid.stored x))) = true
      ↔ _
    rw [hitem, ← Grid.stored_inj]
    simp [DetailValue.compare, CompareOp.test, CompareOp.holds]
  rw [similar, Expr.holdsOn_disjunction, List.any_map, List.any_eq_true]
  simp only [Function.comp_apply, hdetail, exists_eq_right']

theorem predicate_similar (scale : RatingScale) (mode : SimilarMode) (hash : UInt64) :
    (similar mode hash).predicate scale =
      .ok fun item => (similar mode hash).holdsOn scale item := by
  refine Expr.predicate_eq_ok.2 ⟨Expr.fault?_resolveStars_eq_none.2 ?_, rfl⟩
  exact Expr.forall_leaves_disjunction.2
    (List.forall_mem_map.2 fun _ _ => List.forall_mem_singleton.2 rfl)

namespace Catalog

/-- A search for files similar to a written hash finds a file. -/
def FindsSimilar (c : Catalog) (scale : RatingScale) (value : String) (item : Item) : Prop :=
  ∃ e p, c.dialect.compileQuery ∅ (.field ⟨some "similar", .equal, value⟩) = .ok e ∧
    e.predicate scale = .ok p ∧ p item = true

theorem compileQuery_similar (c : Catalog) {value : String} {hash : UInt64}
    (hvalue : Grid.read value = .ok hash) :
    c.dialect.compileQuery ∅ (.field ⟨some "similar", .equal, value⟩) =
      .ok (similar c.config.similarMode hash) := by
  have hsimilar : Field.ofName? (Text.lowercase (Text.trim "similar")) = some .similar := by decide
  have hnamed : c.named .similar .equal value = c.related .similar .equal value := rfl
  have hrelated : c.related .similar .equal value = c.single .similar .equal value :=
    if_neg Bool.false_ne_true
  have hsingle : c.single .similar .equal value =
      liftM (leaf c.config.similarMode c.stars .similar .equal value) := by
    unfold single
    exact if_neg (by decide)
  have hleaf : leaf c.config.similarMode c.stars .similar .equal value =
      (valueOf .similar .equal value Grid.read).map (similar c.config.similarMode) := rfl
  change ((c.field ⟨some "similar", .equal, value⟩).runFrom .start).1 = _
  rw [c.field_eq_named hsimilar, hnamed, hrelated, hsingle, hleaf, valueOf, hvalue]
  rfl

/-- A file is found if its hash is a variant of the written one. -/
theorem findsSimilar_iff (c : Catalog) (scale : RatingScale) {value : String} {hash h : UInt64}
    (hvalue : Grid.read value = .ok hash) {item : Item} (hitem : item.HasGridHash h) :
    c.FindsSimilar scale value item ↔ h ∈ variants c.config.similarMode hash := by
  rw [← holdsOn_similar hitem scale]
  constructor
  · rintro ⟨e, p, he, hp, hfound⟩
    obtain rfl := Except.ok.inj ((c.compileQuery_similar hvalue).symm.trans he)
    obtain rfl := Except.ok.inj ((predicate_similar scale _ _).symm.trans hp)
    exact hfound
  · exact fun hfound => ⟨_, _, c.compileQuery_similar hvalue, predicate_similar scale _ _, hfound⟩

/-- The variants of a hash start with it, are different, are one, two, four or eight, have as many
set bits as the hash, and have the same variants as the hash. So if all variants are looked for, a
file with one hash is found by another exactly if a file with the other is found by the one. -/
theorem similar_equivalence (hash : UInt64) :
    (variants .all hash).head? = some hash ∧ (variants .all hash).Nodup ∧
      (variants .all hash).length ∈ [1, 2, 4, 8] ∧
      (∀ h ∈ variants .all hash,
        (setBits h).card = (setBits hash).card ∧ (variants .all h).Perm (variants .all hash)) ∧
      ∀ (c : Catalog) (scale : RatingScale) (h : UInt64) (value value' : String)
        (item item' : Item),
        c.config.similarMode = .all → Grid.read value = .ok hash → Grid.read value' = .ok h →
        item.HasGridHash h → item'.HasGridHash hash →
        (c.FindsSimilar scale value item ↔ h ∈ variants .all hash) ∧
          (c.FindsSimilar scale value item ↔ c.FindsSimilar scale value' item') := by
  refine ⟨Grid.head?_variants hash, Grid.nodup_variants hash, ?_, fun h hh => ⟨?_, ?_⟩, ?_⟩
  · have hdivisors : Nat.divisors 8 = {1, 2, 4, 8} := by decide
    have hlength := Nat.mem_divisors.2 ⟨Grid.length_variants_dvd hash, by decide⟩
    simpa [hdivisors] using hlength
  · obtain ⟨g, rfl⟩ := Grid.mem_variants.1 hh
    exact Grid.card_setBits_smul g hash
  · exact Grid.perm_variants hh
  · intro c scale h value value' item item' hmode hvalue hvalue' hitem hitem'
    have hfound := c.findsSimilar_iff scale hvalue hitem
    have hfound' := c.findsSimilar_iff scale hvalue' hitem'
    rw [hmode] at hfound hfound'
    refine ⟨hfound, ?_⟩
    rw [hfound, hfound', Grid.mem_variants, Grid.mem_variants, MulAction.mem_orbit_symm]

/-- Files with a bit in one corner and with a bit in the corner across are found by one another. -/
theorem similar_equivalence_corners :
    let c : Catalog := ⟨.construct [] [], ∅, .default, ∅, .standard⟩
    let file (stored : Int) : Item :=
      ⟨"", 0, "", [], ∅, ∅, [],
        ⟨[("AverageIntensityHash", .integer stored)], List.pairwise_singleton _ _⟩, ∅⟩
    (c.config.similarMode = .all ∧ Grid.read "1" = .ok 1 ∧
      Grid.read " 0X8000000000000000" = .ok 0x8000000000000000 ∧
      (file (-9223372036854775808)).HasGridHash 0x8000000000000000 ∧ (file 1).HasGridHash 1) ∧
    0x8000000000000000 ∈ variants .all 1 ∧ (setBits 0x8000000000000000).card = (setBits 1).card ∧
      c.FindsSimilar ⟨"", ∅⟩ "1" (file (-9223372036854775808)) ∧
      c.FindsSimilar ⟨"", ∅⟩ " 0X8000000000000000" (file 1) := by
  intro c file
  have hread : Grid.read "1" = .ok 1 := by decide
  have hread' : Grid.read " 0X8000000000000000" = .ok 0x8000000000000000 := by decide
  have hitem : (file (-9223372036854775808)).HasGridHash 0x8000000000000000 := by decide
  have hitem' : (file 1).HasGridHash 1 := by decide
  have hcorner : 0x8000000000000000 ∈ variants .all 1 := by decide +kernel
  obtain ⟨-, -, -, hsame, hsearch⟩ := similar_equivalence 1
  obtain ⟨hfinds, hboth⟩ := hsearch c ⟨"", ∅⟩ 0x8000000000000000 "1" " 0X8000000000000000" _ _ rfl
    hread hread' hitem hitem'
  have hfound := hfinds.2 hcorner
  exact ⟨⟨rfl, hread, hread', hitem, hitem'⟩, hcorner, (hsame _ hcorner).1, hfound, hboth.1 hfound⟩

end Catalog
end TagQuery
