import TagQuery.Proofs.Term.Reader

/-!
# Reading terms

A text is read token by token from left to right, with a stack of the groups that are open. A space
ends a member of a conjunction, the word between options does not, and a bracket that closes a group
makes it the next term of the group around it. The text of a term is read as its normal form; terms
that are written alike therefore have the same normal form.

## Main definitions

- `Term.IsWritable`: the terms that have a text of their own.
- `Term.Frame`, `Term.Token.step`: a group that is being read, and what a token does to the open
  ones.
- `Term.read`: the term that a text stands for.
- `Term.Reads`: what a part of a text does to the innermost group.

## Main statements

- `Term.readsBack`: a written term is read wherever a term may stand.
- `Term.read_render`: the text of a term is read as its normal form.
- `Term.render_unambiguous`: terms with the same text have the same normal form.
-/

namespace TagQuery.Term

/-- No group of the term is empty, and free text has no sign of its own. -/
inductive IsWritable : Term → Prop
  | conjunction {ts} (hne : ts ≠ []) (h : ∀ t ∈ ts, IsWritable t) : IsWritable (.conjunction ts)
  | disjunction {ts} (hne : ts ≠ []) (h : ∀ t ∈ ts, IsWritable t) : IsWritable (.disjunction ts)
  | negation {t} (h : IsWritable t) : IsWritable (.negation t)
  | field {t : FieldTerm} (h : t.field = none → t.operator = .equal) : IsWritable (.field t)
  | properties (ps) : IsWritable (.properties ps)
  | saved (name) : IsWritable (.saved name)

/-! ## Tokens -/

inductive Token where
  | opening | closing | minus | and | or
  | leaf (t : Term)

def readMark : List Char → Option (Token × List Char)
  | '(' :: rest => some (.opening, rest)
  | ')' :: rest => some (.closing, rest)
  | '-' :: rest => some (.minus, rest)
  | ' ' :: rest =>
    match Text.dropPrefix? ['O', 'R', ' '] rest with
    | some rest => some (.or, rest)
    | none => some (.and, rest)
  | _ => none

def readToken (cs : List Char) : Option (Token × List Char) :=
  -- A value that starts with a mark is quoted, so a leaf is never taken for a mark.
  (readLeaf cs).map (fun (t, rest) => (.leaf t, rest)) <|> readMark cs

/-! ## Groups that are being read -/

/-- A group that is being read. -/
structure Frame where
  /-- The members of the conjunction before the last one. -/
  members : List Term
  /-- The options of the last member so far. -/
  options : List Term
  /-- How often the next term is negated. -/
  negations : Nat

namespace Frame

def empty : Frame := ⟨[], [], 0⟩

def negate (f : Frame) : Frame :=
  { f with negations := f.negations + 1 }

def push (f : Frame) (t : Term) : Frame :=
  ⟨f.members, f.options ++ Junction.or.parts (negation^[f.negations] t), 0⟩

def join (f : Frame) : Frame :=
  ⟨f.members ++ Junction.and.parts (Junction.or.ofParts f.options), [], 0⟩

def value (f : Frame) : Term :=
  Junction.and.ofParts f.join.members

theorem push_negate (f : Frame) (t : Term) :
    f.negate.push t = f.push (.negation t) := rfl

end Frame

/-- What a token does to the groups that are open, the innermost one first. -/
def Token.step : Token → List Frame → Option (List Frame)
  | .opening, fs => some (.empty :: fs)
  | .closing, f :: g :: fs => some (g.push f.value :: fs)
  | .minus, f :: fs => some (f.negate :: fs)
  | .and, f :: fs => some (f.join :: fs)
  | .or, fs => some fs
  | .leaf t, f :: fs => some (f.push t :: fs)
  | _, _ => none

/-- Reads a text to its end, where one group is open. -/
def readFrom (fs : List Frame) (cs : List Char) : Option Term :=
  match fs, cs with
  | [f], [] => some f.value
  | fs, cs => do
    let (token, rest) ← readToken cs
    let fs ← token.step fs
    if rest.length < cs.length then readFrom fs rest else none
termination_by cs.length

def read (s : String) : Option Term :=
  readFrom [.empty] s.toList

/-! ## Steps -/

variable {f g k : Frame} {fs gs : List Frame} {cs ds rest : List Char} {token : Token} {t : Term}
  {ts : List Term}

theorem readFrom_eq (hread : readToken cs = some (token, rest)) (hstep : token.step fs = some gs)
    (hlength : rest.length < cs.length) : readFrom fs cs = readFrom gs rest := by
  have hcs : cs ≠ [] := by
    rintro rfl
    simp at hlength
  rw [readFrom]
  · simp [hread, hstep, hlength]
  · exact fun _ _ h => hcs h

theorem readToken_eq_readMark {c : Char} (hc : c ∈ [' ', '(', ')', '-']) (cs : List Char) :
    readToken (c :: cs) = readMark (c :: cs) := by
  rw [readToken, readLeaf_eq_none hc]
  rfl

theorem readToken_and (h : Text.dropPrefix? ['O', 'R', ' '] cs = none) :
    readToken (' ' :: cs) = some (.and, cs) := by
  simp [readToken_eq_readMark, readMark, h]

/-- What a part of a text does to the innermost group, wherever it ends there. -/
def Reads (cs : List Char) (f g : Frame) : Prop :=
  ∀ fs rest, Ended rest → readFrom (f :: fs) (cs ++ rest) = readFrom (g :: fs) rest

/-- The text cannot be taken for what stands between two options. -/
def StandsAlone (cs : List Char) : Prop :=
  ∀ rest, Ended rest → Text.dropPrefix? ['O', 'R', ' '] (cs ++ rest) = none

namespace Reads

theorem of_readLeaf (h : ∀ rest, Ended rest → readLeaf (cs ++ rest) = some (t, rest)) (f : Frame) :
    Reads cs f (f.push t) := by
  intro fs rest hrest
  have hne : cs ≠ [] := by
    rintro rfl
    exact absurd (h [] nofun) nofun
  have hread : readToken (cs ++ rest) = some (.leaf t, rest) := by
    rw [readToken, h rest hrest]
    rfl
  exact readFrom_eq hread rfl (by simp [List.length_pos_iff.2 hne])

theorem negated (h : Reads cs f.negate g) : Reads ('-' :: cs) f g := by
  intro fs rest hrest
  rw [← h fs rest hrest]
  exact readFrom_eq (readToken_eq_readMark (by decide) _) rfl (by simp)

theorem parenthesized (h : Reads cs .empty g) (f : Frame) :
    Reads (['('] ++ cs ++ [')']) f (f.push g.value) := by
  intro fs rest hrest
  have hopen : readFrom (f :: fs) ('(' :: (cs ++ ')' :: rest)) =
      readFrom (.empty :: f :: fs) (cs ++ ')' :: rest) :=
    readFrom_eq (readToken_eq_readMark (by decide) _) rfl (by simp)
  have hclose : readFrom (g :: f :: fs) (')' :: rest) = readFrom (f.push g.value :: fs) rest :=
    readFrom_eq (readToken_eq_readMark (by decide) _) rfl (by simp)
  simp only [List.append_assoc, List.cons_append, List.nil_append]
  rw [hopen, h _ _ (ended_cons (by decide) rest), hclose]

theorem and (h : Reads cs f g) (hds : StandsAlone ds) (h' : Reads ds g.join k) :
    Reads (cs ++ [' '] ++ ds) f k := by
  intro fs rest hrest
  -- The space is no separator of options because of what stands behind it.
  have hspace : readFrom (g :: fs) (' ' :: (ds ++ rest)) = readFrom (g.join :: fs) (ds ++ rest) :=
    readFrom_eq (readToken_and (hds rest hrest)) rfl (by simp)
  simp only [List.append_assoc, List.cons_append, List.nil_append]
  rw [h _ _ (ended_cons (by decide) _), hspace, h' _ _ hrest]

theorem or (h : Reads cs f g) (h' : Reads ds g k) :
    Reads (cs ++ [' ', 'O', 'R', ' '] ++ ds) f k := by
  intro fs rest hrest
  have hor : readFrom (g :: fs) (' ' :: 'O' :: 'R' :: ' ' :: (ds ++ rest)) =
      readFrom (g :: fs) (ds ++ rest) :=
    readFrom_eq (readToken_eq_readMark (by decide) _) rfl (by simp; omega)
  simp only [List.append_assoc, List.cons_append, List.nil_append]
  rw [h _ _ (ended_cons (by decide) _), hor, h' _ _ hrest]

end Reads

/-! ## Texts that stand alone -/

namespace StandsAlone

theorem cons_of_ne {c : Char} (h : c ≠ 'O') (cs : List Char) : StandsAlone (c :: cs) := by
  intro rest _
  simp [Text.dropPrefix?, h.symm]

theorem of_readLeaf (h : ∀ rest, Ended rest → readLeaf (cs ++ rest) = some (t, rest)) :
    StandsAlone cs := by
  intro rest hrest
  cases hdrop : Text.dropPrefix? ['O', 'R', ' '] (cs ++ rest) with
  | none => rfl
  | some after =>
    have hread := h rest hrest
    rw [Text.dropPrefix?_eq_some hdrop] at hread
    exact absurd ((readLeaf_or after).symm.trans hread) nofun

theorem parenthesize (h : StandsAlone cs) (parent child : Nat) :
    StandsAlone (parenthesize parent child cs) := by
  unfold Term.parenthesize
  split
  · exact cons_of_ne (by decide) _
  · exact h

theorem joinChars (h : StandsAlone cs) (separator : List Char) (parts : List (List Char)) :
    StandsAlone (joinChars (' ' :: separator) (cs :: parts)) := by
  intro rest hrest
  cases parts with
  | nil => simpa [Term.joinChars] using h rest hrest
  | cons part parts =>
    simp only [Term.joinChars, List.intercalate_cons_cons, List.append_assoc]
    exact h _ (ended_cons (by decide) _)

end StandsAlone

/-! ## Terms -/

/-- The text of a term is read as its normal form, wherever the term may stand. -/
structure ReadsBack (t : Term) : Prop where
  alone : StandsAlone t.write
  member (ms : List Term) : ∃ g, Reads t.write ⟨ms, [], 0⟩ g ∧
    g.join = ⟨ms ++ Junction.and.parts t.normalForm, [], 0⟩
  option (ms os : List Term) : Reads (parenthesize 1 t.precedence t.write) ⟨ms, os, 0⟩
    ⟨ms, os ++ Junction.or.parts t.normalForm, 0⟩
  operand (f : Frame) : Reads (parenthesize 2 t.precedence t.write) f (f.push t.normalForm)

theorem parenthesize_of_lt {parent child : Nat} (h : child < parent) (cs : List Char) :
    parenthesize parent child cs = ['('] ++ cs ++ [')'] :=
  if_pos h

theorem parenthesize_of_le {parent child : Nat} (h : parent ≤ child) (cs : List Char) :
    parenthesize parent child cs = cs :=
  if_neg (Nat.not_lt.2 h)

theorem writeAll_eq_map (parent : Nat) (ts : List Term) :
    writeAll parent ts = ts.map fun t => parenthesize parent t.precedence t.write := by
  induction ts with
  | nil => rfl
  | cons t ts ih => rw [writeAll, ih, List.map_cons]

/-- A group between parentheses is one term of the group around it. -/
theorem reads_parenthesized
    (h : ∃ g, Reads t.write .empty g ∧ g.join = ⟨Junction.and.parts t.normalForm, [], 0⟩)
    (f : Frame) : Reads (['('] ++ t.write ++ [')']) f (f.push t.normalForm) := by
  obtain ⟨g, hread, hjoin⟩ := h
  have hvalue : g.value = t.normalForm := by
    rw [Frame.value, hjoin]
    exact t.isNormal_normalForm.ofParts_parts .and
  exact hvalue ▸ hread.parenthesized f

/-- A disjunction is one member of a conjunction. -/
theorem exists_reads_member (ms : List Term)
    (h : Reads t.write ⟨ms, [], 0⟩ ⟨ms, Junction.or.parts t.normalForm, 0⟩) :
    ∃ g, Reads t.write ⟨ms, [], 0⟩ g ∧
      g.join = ⟨ms ++ Junction.and.parts t.normalForm, [], 0⟩ := by
  refine ⟨_, h, ?_⟩
  rw [Frame.join, t.isNormal_normalForm.ofParts_parts .or]

namespace ReadsBack

/-- Leaves and negations need no parentheses anywhere. -/
theorem of_operand (hprecedence : 2 ≤ t.precedence) (halone : StandsAlone t.write)
    (h : ∀ f, Reads t.write f (f.push t.normalForm)) : ReadsBack t where
  alone := halone
  member ms := exists_reads_member ms (h ⟨ms, [], 0⟩)
  option ms os := by
    rw [parenthesize_of_le (by omega)]
    exact h ⟨ms, os, 0⟩
  operand f := by
    rw [parenthesize_of_le hprecedence]
    exact h f

theorem of_readLeaf (hprecedence : 2 ≤ t.precedence)
    (h : ∀ rest, Ended rest → readLeaf (t.write ++ rest) = some (t.normalForm, rest)) :
    ReadsBack t :=
  of_operand hprecedence (.of_readLeaf h) (Reads.of_readLeaf h)

theorem negation (h : ReadsBack t) : ReadsBack (.negation t) := by
  refine of_operand le_rfl (.cons_of_ne (by decide) _) fun f => ?_
  have hread := h.operand f.negate
  rw [Frame.push_negate] at hread
  exact hread.negated

/-- The options of a disjunction are read one after the other. -/
theorem reads_options (hts : ts ≠ []) (h : ∀ t ∈ ts, ReadsBack t) (ms os : List Term) :
    Reads (joinChars [' ', 'O', 'R', ' '] (writeAll 1 ts)) ⟨ms, os, 0⟩
      ⟨ms, os ++ (ts.map normalForm).flatMap Junction.or.parts, 0⟩ := by
  rw [writeAll_eq_map]
  induction ts generalizing os with
  | nil => contradiction
  | cons t ts ih =>
    obtain ⟨ht, hts⟩ := List.forall_mem_cons.1 h
    cases ts with
    | nil => simpa [joinChars] using ht.option ms os
    | cons u us =>
      have hrest := ih (List.cons_ne_nil u us) hts (os ++ Junction.or.parts t.normalForm)
      simpa [joinChars, List.intercalate_cons_cons] using (ht.option ms os).or hrest

/-- The members of a conjunction are read one after the other. -/
theorem reads_members (hts : ts ≠ []) (h : ∀ t ∈ ts, ReadsBack t) (ms : List Term) :
    ∃ g, Reads (joinChars [' '] (writeAll 0 ts)) ⟨ms, [], 0⟩ g ∧
      g.join = ⟨ms ++ (ts.map normalForm).flatMap Junction.and.parts, [], 0⟩ := by
  simp only [writeAll_eq_map, parenthesize_of_le (Nat.zero_le _)]
  induction ts generalizing ms with
  | nil => contradiction
  | cons t ts ih =>
    obtain ⟨ht, hts⟩ := List.forall_mem_cons.1 h
    obtain ⟨g, hfirst, hjoin⟩ := ht.member ms
    cases ts with
    | nil => exact ⟨g, by simpa [joinChars] using hfirst, by simpa using hjoin⟩
    | cons u us =>
      obtain ⟨k, hrest, hlast⟩ :=
        ih (List.cons_ne_nil u us) hts (ms ++ Junction.and.parts t.normalForm)
      have halone := (List.forall_mem_cons.1 hts).1.alone.joinChars [] (us.map write)
      refine ⟨k, ?_, by simpa using hlast⟩
      simpa [joinChars, List.intercalate_cons_cons] using hfirst.and halone (hjoin ▸ hrest)

theorem disjunction (hts : ts ≠ []) (h : ∀ t ∈ ts, ReadsBack t) : ReadsBack (.disjunction ts) := by
  have hparts : Junction.or.parts (Term.disjunction ts).normalForm =
      (ts.map Term.normalForm).flatMap Junction.or.parts := parts_normalForm_group .or ts
  -- Within a disjunction the options go on; a negation needs them between parentheses.
  have hread (ms os : List Term) : Reads (Term.disjunction ts).write ⟨ms, os, 0⟩
      ⟨ms, os ++ Junction.or.parts (Term.disjunction ts).normalForm, 0⟩ := by
    rw [hparts]
    exact reads_options hts h ms os
  have hmember (ms : List Term) := exists_reads_member ms (hread ms [])
  exact {
    alone := by
      obtain ⟨t, us, rfl⟩ := List.exists_cons_of_ne_nil hts
      exact ((h t List.mem_cons_self).alone.parenthesize 1 t.precedence).joinChars _ _
    member := hmember
    option := fun ms os => by
      rw [parenthesize_of_le (by simp [precedence])]
      exact hread ms os
    operand := fun f => by
      rw [parenthesize_of_lt (by simp [precedence])]
      exact reads_parenthesized (hmember []) f }

theorem conjunction (hts : ts ≠ []) (h : ∀ t ∈ ts, ReadsBack t) : ReadsBack (.conjunction ts) := by
  have hparts : Junction.and.parts (Term.conjunction ts).normalForm =
      (ts.map Term.normalForm).flatMap Junction.and.parts := parts_normalForm_group .and ts
  have hmember (ms : List Term) : ∃ g, Reads (Term.conjunction ts).write ⟨ms, [], 0⟩ g ∧
      g.join = ⟨ms ++ Junction.and.parts (Term.conjunction ts).normalForm, [], 0⟩ := by
    rw [hparts]
    exact reads_members hts h ms
  have hoperand := reads_parenthesized (hmember [])
  exact {
    alone := by
      obtain ⟨t, us, rfl⟩ := List.exists_cons_of_ne_nil hts
      exact ((h t List.mem_cons_self).alone.parenthesize 0 t.precedence).joinChars _ _
    member := hmember
    option := fun ms os => by
      rw [parenthesize_of_lt (by simp [precedence])]
      exact hoperand ⟨ms, os, 0⟩
    operand := fun f => by
      rw [parenthesize_of_lt (by simp [precedence])]
      exact hoperand f }

end ReadsBack

/-- Every writable term is read back. -/
theorem readsBack {t : Term} (h : t.IsWritable) : ReadsBack t := by
  induction h with
  | conjunction hts _ ih => exact .conjunction hts ih
  | disjunction hts _ ih => exact .disjunction hts ih
  | negation _ ih => exact ih.negation
  | field ht => exact .of_readLeaf (by simp [precedence]) fun rest => readLeaf_field ht
  | properties ps =>
    exact .of_readLeaf (by simp [precedence]) fun rest _ => readLeaf_properties ps rest
  | saved name => exact .of_readLeaf (by simp [precedence]) fun rest => readLeaf_saved name

/-- The text of a term is read as its normal form. -/
theorem read_render {t : Term} (h : t.IsWritable) : read t.render = some t.normalForm := by
  obtain ⟨g, hread, hjoin⟩ := (readsBack h).member []
  have hend := hread [] [] nofun
  rw [List.append_nil] at hend
  rw [read, render, String.toList_ofList, Frame.empty, hend, readFrom, Frame.value, hjoin,
    List.nil_append, t.isNormal_normalForm.ofParts_parts .and]

/-- Terms with the same text have the same normal form, and it can be read from the text. -/
theorem render_unambiguous {t u : Term} (ht : t.IsWritable) (hu : u.IsWritable)
    (h : t.render = u.render) :
    t.normalForm = u.normalForm ∧ read t.render = some t.normalForm := by
  have hread := read_render ht
  refine ⟨Option.some.inj ?_, hread⟩
  rw [← hread, h, read_render hu]

theorem render_unambiguous_quoted :
    (conjunction [conjunction [text "OR", text "-x"],
      properties [⟨"@", some .equal, none⟩]]).normalForm =
        conjunction [text "OR", text "-x", properties [⟨"@", none, none⟩]] ∧
    read "\"OR\" \"-x\" [@]" =
      some (conjunction [text "OR", text "-x", properties [⟨"@", none, none⟩]]) := by
  have htext (s : String) : IsWritable (text s) := .field fun _ => rfl
  have ht : IsWritable (conjunction [conjunction [text "OR", text "-x"],
      properties [⟨"@", some .equal, none⟩]]) :=
    .conjunction nofun (by simp [htext, IsWritable.conjunction, IsWritable.properties])
  have hu : IsWritable (conjunction [text "OR", text "-x", properties [⟨"@", none, none⟩]]) :=
    .conjunction nofun (by simp [htext, IsWritable.properties])
  obtain ⟨hnormal, hread⟩ := render_unambiguous ht hu (by decide)
  have hrender : (conjunction [conjunction [text "OR", text "-x"],
      properties [⟨"@", some .equal, none⟩]]).render = "\"OR\" \"-x\" [@]" := by decide
  rw [hrender] at hread
  exact ⟨hnormal, hread⟩

end TagQuery.Term
