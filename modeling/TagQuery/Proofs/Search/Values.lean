import TagQuery.Proofs.Number.Bounded
import TagQuery.Search.Leaf

/-!
# Values of search fields are finite

Texts may write NaN and the infinities, and numbers past the range. What a search field reads from a
text is a finite number all the same: ratings and plain durations are checked, portions are parts of
a whole, and the parts of a clock or of a span of time are numbers of at most 64 bits.

## Main definitions

- `Yields`: an outcome has a property if it is no failure.
- `Search.Span.IsProper`: the seconds of a span have 64 bits, and its nanoseconds make no second.

## Main statements

- `Search.yields_readRating`: ratings are finite.
- `Search.yields_readPortion`: portions are from zero to one.
- `Search.Span.yields_read`: spans of time are proper, however they are written.
- `Search.yields_readDuration`: durations are finite.
-/

namespace TagQuery

/-! ## Outcomes -/

section
variable {ε δ α β : Type}

/-- An outcome has a property if it is no failure. -/
def Yields (P : α → Prop) (m : Except ε α) : Prop :=
  ∀ a, m = .ok a → P a

namespace Yields

variable {P : α → Prop} {Q : β → Prop} {m : Except ε α}

theorem anything (m : Except ε α) : Yields (fun _ => True) m := fun _ _ => trivial

theorem pure {a : α} (h : P a) : Yields P (.ok a : Except ε α) := by
  rintro b ⟨⟩
  exact h

theorem throw (fault : ε) : Yields P (.error fault) := by
  rintro a ⟨⟩

theorem bind {f : α → Except ε β} (h : Yields P m) (hf : ∀ a, P a → Yields Q (f a)) :
    Yields Q (m >>= f) := by
  cases m with
  | error fault => exact throw fault
  | ok a => exact hf a (h a rfl)

theorem map {f : α → β} (h : Yields P m) (hf : ∀ a, P a → Q (f a)) : Yields Q (m.map f) := by
  cases m with
  | error fault => exact throw fault
  | ok a => exact pure (hf a (h a rfl))

theorem mapError {f : ε → δ} (h : Yields P m) : Yields P (m.mapError f) := by
  cases m with
  | error fault => exact throw _
  | ok a => exact pure (h a rfl)

theorem ite {p : Prop} [Decidable p] {m' : Except ε α} (h : p → Yields P m)
    (h' : ¬p → Yields P m') : Yields P (if p then m else m') := by
  split
  · exact h ‹p›
  · exact h' ‹¬p›

end Yields
end

namespace Search

/-! ## Ratings and portions -/

/-- Ratings are finite. -/
theorem yields_readRating (value : String) :
    Yields (·.isFinite = true) (readRating value) :=
  .bind (.anything _) fun _ _ => .ite (fun h => .pure h) fun _ => .throw _

/-- Portions are from zero to one. -/
theorem yields_readPortion {n : Nat} (hpos : 0 < n) (hn : n ≤ 2 ^ 53) (value : String) :
    Yields Real64.IsPortion (readPortion (.ofNat n) value) := by
  unfold readPortion
  split
  · exact .throw _
  · refine .ite (fun hrange => ?_) fun _ => .throw _
    obtain ⟨hlow, hhigh⟩ := (Bool.and_eq_true _ _).mp hrange
    exact .pure (Real64.isPortion_div hpos hn hlow hhigh)

/-! ## Spans of time -/

theorem maxWord_le : Number.maxWord ≤ 2 ^ 64 := Nat.sub_le _ _

namespace Span

/-- The seconds of a span have 64 bits, and its nanoseconds make no second. -/
def IsProper (s : Span) : Prop :=
  s.seconds ≤ Number.maxWord ∧ s.nanos < perSecond

theorem yields_bounded (n : Nat) : Yields (· ≤ Number.maxWord) (bounded n) :=
  .ite (fun h => .pure h) fun _ => .throw _

/-- Whatever is added to a span, the sum is proper. -/
theorem yields_add (s : Span) (seconds nanos : Nat) : Yields IsProper (s.add seconds nanos) :=
  .bind (.anything _) fun _ _ => .bind (.anything _) fun _ _ =>
    .bind (yields_bounded _) fun _ h => .pure ⟨h, Nat.mod_lt _ (by decide)⟩

theorem yields_addItem (s : Span) (number : Nat) (fraction : Option Fraction) (unit : List Char) :
    Yields IsProper (s.addItem number fraction unit) := by
  unfold addItem
  split
  · exact .throw _
  · refine .bind (.anything _) fun whole _ => .bind (yields_add s _ _) fun sum hsum => ?_
    cases fraction with
    | none => exact .pure hsum
    | some f => exact .bind (.anything _) fun part _ => yields_add sum _ _

section
variable {s : Span} (hs : s.IsProper)
include hs

/-- A character leaves a proper span proper. -/
theorem yields_step (offset : Nat) (c : Char) (state : ReadState) :
    Yields (fun r => r.2.IsProper) (step offset c state s) := by
  have hkept (next : ReadState) :
      Yields (fun r : ReadState × Span => r.2.IsProper) (.ok (next, s) : Except SpanFault _) :=
    .pure hs
  have hadded (next : ReadState) (n : Nat) (f : Option Fraction) (unit : List Char) :
      Yields (fun r : ReadState × Span => r.2.IsProper)
        (do return (next, ← s.addItem n f unit)) :=
    .bind (yields_addItem s n f unit) fun _ h => .pure h
  cases state with
  | seeking first since =>
    exact .ite (fun _ => hkept _) fun _ => .ite (fun _ => hkept _) fun _ => .throw _
  | number n =>
    refine .ite (fun _ => .bind (.anything _) fun _ _ => hkept _) fun _ => ?_
    refine .ite (fun _ => hkept _) fun _ => .ite (fun _ => hkept _) fun _ => ?_
    exact .ite (fun _ => hkept _) fun _ => .throw _
  | fraction n f reported =>
    refine .ite (fun _ => .bind (.anything _) fun _ _ => hkept _) fun _ => ?_
    refine .ite (fun _ => hkept _) fun _ => .ite (fun _ => ?_) fun _ => .throw _
    exact .ite (fun _ => .throw _) fun _ => hkept _
  | unit n f letters =>
    refine .ite (fun _ => hadded _ n f _) fun _ => .ite (fun _ => hadded _ n f _) fun _ => ?_
    exact .ite (fun _ => hkept _) fun _ => .throw _

theorem yields_finish (state : ReadState) : Yields IsProper (finish state s) := by
  cases state with
  | seeking first since =>
    cases first with
    | true => exact .throw _
    | false => exact .pure hs
  | number n => exact yields_addItem s n none []
  | fraction n f reported => exact .ite (fun _ => .throw _) fun _ => yields_addItem s n (some f) []
  | unit n f letters => exact yields_addItem s n f letters.reverse

theorem yields_readFrom (offset : Nat) (state : ReadState) (cs : List Char) :
    Yields IsProper (readFrom offset state s cs) := by
  induction cs generalizing offset state s with
  | nil => exact yields_finish hs state
  | cons c cs ih =>
    unfold readFrom
    split
    · exact .throw _
    · next next t hstep => exact ih (yields_step hs offset c state _ hstep) _ next

end

/-- Spans of time are proper, however they are written. -/
theorem yields_read (cs : List Char) : Yields IsProper (read cs) :=
  yields_readFrom ⟨Nat.zero_le _, by decide⟩ 0 _ cs

theorem IsProper.isFinite_toReal {s : Span} (hs : s.IsProper) : s.toReal.isFinite = true := by
  have hseconds : (Real64.ofNat s.seconds).Within 64 :=
    Real64.within_ofNat (by decide) (Nat.le_trans hs.1 maxWord_le)
  have hnanos : (Real64.ofNat s.nanos).Within 30 :=
    Real64.within_ofNat (by decide) (Nat.le_trans (Nat.le_of_lt hs.2) (by decide))
  have hpart := hnanos.div (by decide) (show 0 < perSecond by decide) (by decide)
  exact (hseconds.add (hpart.mono (by decide)) (by decide)).isFinite

end Span

/-! ## Durations -/

theorem yields_readMinutes {total : Nat} (htotal : total ≤ Number.maxWord) (text : String)
    (isFirst : Bool) (parts : List (List Char)) :
    Yields (· ≤ Number.maxWord) (readMinutes text total isFirst parts) := by
  induction parts generalizing total isFirst with
  | nil => exact .pure htotal
  | cons part parts ih =>
    unfold readMinutes
    split
    · exact .throw _
    · refine .ite (fun _ => .throw _) fun _ => .ite (fun _ => .throw _) fun hlimit => ?_
      exact ih (Nat.not_lt.1 hlimit) false

theorem yields_readClock (text : String) : Yields (·.isFinite = true) (readClock text) := by
  unfold readClock
  dsimp only
  refine .ite (fun _ => .throw _) fun _ => ?_
  split
  · exact .throw _
  · next seconds _ =>
    refine .ite (fun _ => .throw _) fun hrange => ?_
    refine .bind (yields_readMinutes (Nat.zero_le _) text true _) fun minutes hminutes => .pure ?_
    -- 64 bits for the minutes and six more for their seconds stay far below the end of the range
    rw [Bool.not_eq_true', Bool.not_eq_false, Bool.and_eq_true] at hrange
    have hhigh : seconds.ble (.ofNat 60) = true := by simp [Real64.ble, hrange.2]
    have hseconds : seconds.Within 70 :=
      (Real64.within_of_ble (k := 6) (by decide) (by decide) hrange.1 hhigh).mono (by decide)
    have hminutes : (Real64.ofNat minutes).Within 64 :=
      Real64.within_ofNat (by decide) (Nat.le_trans hminutes maxWord_le)
    have hsixty : (Real64.ofNat 60).Within 6 := Real64.within_ofNat (by decide) (by decide)
    exact ((hminutes.mul hsixty (by decide)).add hseconds (by decide)).isFinite

/-- Durations are finite. -/
theorem yields_readDuration (value : String) :
    Yields (·.isFinite = true) (readDuration value) := by
  unfold readDuration
  dsimp only
  split
  · refine .ite (fun hcheck => .pure ?_) fun _ => .throw _
    exact ((Bool.and_eq_true _ _).mp hcheck).1
  · refine .ite (fun _ => yields_readClock _) fun _ => ?_
    split
    · next hread => exact .pure (Span.yields_read _ _ hread).isFinite_toReal
    · exact .throw _

end Search
end TagQuery
