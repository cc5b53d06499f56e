import TagQuery.Proofs.Number.Real64
import TagQuery.Proofs.Sql.Joins
import TagQuery.Proofs.Sql.Pattern

/-!
# Evaluating conditions

What relations between stored values come to, and what a subselect asks of the rows of a file.

## Main statements

- `Sql.relate_natural`, `Sql.relate_text_fold`, `Sql.notNull_and_relate`, `Sql.relate_storedDetail`:
  relations between numbers, texts, ratings and details.
- `Sql.Library.eval_exists_ofFile`, `Sql.Library.eval_exists_two_ofFile`: subselects that ask about
  the rows of a file.
-/

namespace TagQuery.Sql

/-! ## Truth values -/

namespace Truth

@[simp] theorem and_some (a b : Bool) : Truth.and (some a) (some b) = some (a && b) := by
  cases a <;> cases b <;> rfl

@[simp] theorem or_some (a b : Bool) : Truth.or (some a) (some b) = some (a || b) := by
  cases a <;> cases b <;> rfl

@[simp] theorem some_beq_true (a : Bool) : ((some a : Truth) == some true) = a := by
  cases a <;> rfl

@[simp] theorem not_some (a : Bool) : Truth.not (some a) = some !a := rfl

@[simp] theorem and_eq_true (s t : Truth) :
    (s.and t == some true) = (s == some true && t == some true) := by
  rcases s with _ | _ | _ <;> rcases t with _ | _ | _ <;> rfl

@[simp] theorem or_eq_true (s t : Truth) :
    (s.or t == some true) = (s == some true || t == some true) := by
  rcases s with _ | _ | _ <;> rcases t with _ | _ | _ <;> rfl

end Truth

/-! ## Relations between values -/

theorem relate_integer (op : CompareOp) (fold : Bool) (i j : Int) :
    relate op fold (.integer i) (.integer j) = some (op.test i j) := rfl

theorem test_natCast (op : CompareOp) (m n : Nat) : op.test (m : Int) (n : Int) = op.test m n := by
  have hcompare : compare (m : Int) (n : Int) = compare m n := by
    simp only [compare, compareOfLessAndEq, Int.ofNat_lt, Int.ofNat_inj]
  rw [CompareOp.test, CompareOp.test, hcompare]

/-- Whole numbers are in the same relations as values. -/
theorem relate_natural (op : CompareOp) (fold : Bool) (m n : Nat) :
    relate op fold (.integer m) (.integer n) = some (op.test m n) := by
  rw [relate_integer, test_natCast]

theorem relate_text (op : CompareOp) (a b : String) :
    relate op false (.text a) (.text b) = some (op.test a b) := rfl

@[simp] theorem text_beq_text (a b : String) : (Value.text a == Value.text b) = (a == b) := by
  rw [Bool.eq_iff_iff]
  simp

theorem relate_text_fold (a b : String) :
    relate .equal true (.text a) (.text b) =
      some (Text.asciiLowercase a == Text.asciiLowercase b) := by
  simp only [relate, Value.compare?, Value.compareText, if_true, Option.map_some, CompareOp.holds,
    Option.some.injEq]
  rw [Bool.eq_iff_iff]
  simp

theorem holds_none (op : CompareOp) : op.holds none = false := by
  cases op <;> rfl

/-- A stored number that is there and is in a relation to a finite one. -/
theorem notNull_and_relate (op : CompareOp) (x : Real64) {y : Real64} (hy : y.isFinite = true) :
    Truth.and (some (Value.ofReal x != .null)) (relate op false (.ofReal x) (.real y)) =
      some (op.testReal x y) := by
  cases x with
  | nan => cases op <;> rfl
  | infinity _ | finite _ _ _ =>
    cases y with
    | nan | infinity _ => contradiction
    | finite _ _ _ => exact Truth.and_some true _

/-! ## Integers and binary64 numbers -/

theorem signedSteps_natAbs (i : Int) (n : Nat) :
    Real64.signedSteps (decide (i < 0)) (i.natAbs * n) = i * n := by
  by_cases hneg : i < 0
  · have habs : (i.natAbs : Int) = -i := by omega
    rw [decide_eq_true hneg, Real64.signedSteps_true, Int.natCast_mul, habs, Int.neg_mul,
      Int.neg_neg]
  · have habs : (i.natAbs : Int) = i := by omega
    rw [decide_eq_false hneg, Real64.signedSteps_false, Int.natCast_mul, habs]

/-- Integers of up to 53 bits compare with numbers of the format without rounding. -/
theorem compareIntReal_eq {i : Int} (h : i.natAbs ≤ 2 ^ 53) (x : Real64) :
    Value.compareIntReal i x = (Real64.ofInt i).compare? x := by
  rw [Real64.ofInt, Real64.ofRatio_one _ h]
  cases x with
  | nan => rfl
  | infinity negative => rfl
  | finite negative steps hfits =>
    rw [Value.compareIntReal, Real64.compare?, signedSteps_natAbs]

theorem compareIntReal_swap {i : Int} (h : i.natAbs ≤ 2 ^ 53) (x : Real64) :
    (Value.compareIntReal i x).map Ordering.swap = x.compare? (Real64.ofInt i) := by
  rw [compareIntReal_eq h, Real64.compare?_eq, Real64.compare?_eq]
  generalize (Real64.ofInt i).place? = a
  cases x.place? <;> cases a <;>
    simp only [Real64.comparePlaces, Option.map_some, Option.map_none, Int.compare_swap]

/-! ## Details -/

def isOfKind : DetailValue → Value → Bool
  | .text _, v => v.kind == "text"
  | _, v => v.kind == "integer" || v.kind == "real"

theorem relate_eq_some {op : CompareOp} {a b : Value} {o : Option Ordering}
    (h : a.compare? false b = o) : (relate op false a b == some true) = op.holds o := by
  rw [relate, h]
  cases o with
  | none => exact (holds_none op).symm
  | some o =>
    rw [Option.map_some]
    generalize op.holds (some o) = b
    cases b <;> rfl

/-- Stored details are in the relations of the details. -/
theorem relate_storedDetail (op : CompareOp) {v w : DetailValue} (hv : v.IsExact) (hw : w.IsExact) :
    (isOfKind w (storedDetail v) &&
      relate op false (storedDetail v) (Condition.detailValue w) == some true) =
      v.compare op w := by
  cases v with
  | integer i =>
    cases w with
    | integer j => exact relate_eq_some rfl
    | real y => exact relate_eq_some (compareIntReal_eq hv y)
    | text t => rfl
  | text s =>
    cases w with
    | integer j => rfl
    | real y => rfl
    | text t => exact relate_eq_some rfl
  | real x =>
    cases x with
    | nan => cases w <;> cases op <;> rfl
    | infinity negative =>
      cases w with
      | integer j => exact relate_eq_some (compareIntReal_swap hw (.infinity negative))
      | real y => exact relate_eq_some rfl
      | text t => rfl
    | finite negative steps hfits =>
      cases w with
      | integer j => exact relate_eq_some (compareIntReal_swap hw (.finite negative steps hfits))
      | real y => exact relate_eq_some rfl
      | text t => rfl

/-! ## Subselects -/

variable {db : Database} {scope : Scope}

/-- A subselect from one table. -/
theorem eval_exists (s : Source) (f : Formula) :
    (Formula.exists [s] f).eval db scope =
      some ((db s.table).any fun row => f.eval db ((s.name, row) :: scope) == some true) := by
  have hchoices : choices db [s] = (db s.table).map fun row => [(s.name, row)] := by
    simp [choices, List.map_eq_flatMap]
  rw [Formula.eval, hchoices, List.any_map]
  rfl

/-- A subselect from two tables. -/
theorem eval_exists_two (s t : Source) (f : Formula) :
    (Formula.exists [s, t] f).eval db scope =
      some ((db s.table).any fun row => (db t.table).any fun other =>
        f.eval db ((s.name, row) :: (t.name, other) :: scope) == some true) := by
  have hchoices : choices db [s, t] = (db s.table).flatMap fun row =>
      (db t.table).map fun other => [(s.name, row), (t.name, other)] := by
    simp only [choices, List.map_cons, List.map_nil, ← List.map_eq_flatMap, List.map_map]
    rfl
  rw [Formula.eval, hchoices, List.any_flatMap]
  simp only [List.any_map]
  rfl

theorem eval_isAmong (a : Scalar) (texts : List String) :
    ((Formula.isAmong a (texts.map .text)).eval db scope == some true) =
      texts.any fun t => a.eval scope == .text t := by
  rw [Formula.eval]
  induction texts with
  | nil => rfl
  | cons t texts ih =>
    rw [List.map_cons, List.foldr_cons, Truth.or_eq_true, relate_equal_text, ih, List.any_cons]

/-! ## Rows of files -/

theorem any_congr {α : Type} {xs : List α} {p q : α → Bool} (h : ∀ x ∈ xs, p x = q x) :
    xs.any p = xs.any q := by
  rw [Bool.eq_iff_iff, List.any_eq_true, List.any_eq_true]
  exact exists_congr fun x => and_congr_right fun hx => by rw [h x hx]

/-- What is asked about the only member of a list that satisfies a condition. -/
theorem any_and_of_unique {α : Type} {xs : List α} {x : α} {p : α → Bool} (q : α → Bool)
    (hmem : x ∈ xs) (hp : p x = true) (hunique : ∀ y ∈ xs, p y = true → y = x) :
    (xs.any fun y => p y && q y) = q x := by
  rw [Bool.eq_iff_iff, List.any_eq_true]
  constructor
  · rintro ⟨y, hy, h⟩
    obtain ⟨hpy, hqy⟩ := Bool.and_eq_true_iff.1 h
    exact hunique y hy hpy ▸ hqy
  · intro h
    exact ⟨x, hmem, Bool.and_eq_true_iff.2 ⟨hp, h⟩⟩

namespace Library

variable {l : Library} {item : Item}

/-- A subselect that asks about the rows of a file. -/
theorem eval_exists_ofFile {table name : String} (hname : name ≠ "h") {rowsOf : Item → List Row}
    (hrows : (db table).Perm (l.items.flatMap rowsOf)) (hhash : ShowsHash rowsOf)
    (hitem : item ∈ l.items) (hscope : scope.get "h" "Hash" = .text item.hash) (f : Formula) :
    (Formula.exists [⟨table, name⟩] (.and (ofFile name) f)).eval db scope =
      some ((rowsOf item).any fun row => f.eval db ((name, row) :: scope) == some true) := by
  rw [eval_exists, ← any_ofHash hrows hhash hitem]
  simp only [Formula.eval, Truth.and_eq_true, eval_ofFile hname _ hscope]

/-- A subselect that asks about the rows of a file and those of another table. -/
theorem eval_exists_two_ofFile {table name table' name' : String} (hname : name ≠ "h")
    (hname' : name' ≠ "h") {rowsOf : Item → List Row}
    (hrows : (db table).Perm (l.items.flatMap rowsOf)) (hhash : ShowsHash rowsOf)
    (hitem : item ∈ l.items) (hscope : scope.get "h" "Hash" = .text item.hash) (f g : Formula) :
    (Formula.exists [⟨table, name⟩, ⟨table', name'⟩]
        (.and f (.and (ofFile name) g))).eval db scope =
      some ((rowsOf item).any fun row => (db table').any fun other =>
        f.eval db ((name, row) :: (name', other) :: scope) == some true &&
          g.eval db ((name, row) :: (name', other) :: scope) == some true) := by
  have hscope' (other : Row) :
      Scope.get ((name', other) :: scope) "h" "Hash" = .text item.hash := by
    rw [Scope.get_cons_of_ne hname'.symm, hscope]
  rw [eval_exists_two, ← any_ofHash hrows hhash hitem]
  refine congrArg some (any_congr fun row _ => ?_)
  simp only [Formula.eval, Truth.and_eq_true, eval_ofFile hname _ (hscope' _)]
  -- Whether a row belongs to the file does not depend on the other row.
  cases hasHash item.hash row with
  | true => simp only [Bool.true_and]
  | false =>
    simp only [Bool.false_and, Bool.and_false, List.any_eq_false]
    exact fun _ _ => Bool.false_ne_true

end Library

end TagQuery.Sql
