import TagQuery.Proofs.Term.NormalForm
import TagQuery.Proofs.Text.Ascii
import TagQuery.Term.Printer

/-!
# Reading the leaves of terms

Readers for what stands between the brackets and separators of a written term: values, names, signs,
comparisons, conditions on properties, and references to saved searches. Each takes back what was
written from the start of a text, whatever characters it is about, and leaves the rest.

## Main definitions

- `Term.readValue`, `Term.readName`, `Term.readSign`: the parts of a comparison.
- `Term.readField`, `Term.readPredicates`: fields, and conditions on properties.
- `Term.readLeaf`: a field, some conditions, or a reference.
- `Term.Ended`: nothing continues what was read.

## Main statements

- `Term.readValue_writeValue`, `Term.readField_writeField`, `Term.readPredicates_joinChars`: each
  reader takes back what was written.
- `Term.readLeaf_eq_none`, `Term.readLeaf_or`: brackets and separators start no leaf.
-/

namespace TagQuery.Term

variable {rest : List Char}

/-! ## Values -/

/-- The text before the first mark that is not doubled, and what stands behind that mark. -/
def readEnclosed (mark : Char) : List Char → Option (List Char × List Char)
  | [] => none
  | c :: cs =>
    if c = mark then
      match cs with
      | d :: ds =>
        if d = mark then (readEnclosed mark ds).map fun (text, rest) => (mark :: text, rest)
        else some ([], d :: ds)
      | [] => some ([], [])
    else (readEnclosed mark cs).map fun (text, rest) => (c :: text, rest)

/-- A value: a text between double quotes or a plain word. -/
def readValue : List Char → Option (String × List Char)
  | '"' :: cs => (readEnclosed '"' cs).map fun (text, rest) => (String.ofList text, rest)
  | cs =>
    let word := cs.takeWhile isWordChar
    if needsQuotes word then none else some (String.ofList word, cs.dropWhile isWordChar)

/-- Neither a word nor a quoted text goes on. -/
def EndsValue (rest : List Char) : Prop :=
  ∀ c ∈ rest.head?, isWordChar c = false ∧ c ≠ '"'

/-- The characters with a meaning of their own outside of words. -/
def marks : List Char :=
  [' ', '(', ')', '[', ']', '\x7b', '"', '#', '@', ':', '=', '<', '>', '~']

theorem isWordChar_of_mem_marks {c : Char} (h : c ∈ marks) : isWordChar c = false := by
  have hall : ∀ d ∈ marks, isWordChar d = false := by
    simp [marks, isWordChar, Text.isAlphanumeric_eq]
  exact hall c h

theorem readEnclosed_of_ne {mark c : Char} (h : c ≠ mark) (cs : List Char) :
    readEnclosed mark (c :: cs) =
      (readEnclosed mark cs).map fun (text, rest) => (c :: text, rest) := by
  cases cs <;> simp [readEnclosed, h]

theorem readEnclosed_replaceChar {mark : Char} (cs : List Char) (h : rest.head? ≠ some mark) :
    readEnclosed mark (Text.replaceChar mark [mark, mark] cs ++ mark :: rest) =
      some (cs, rest) := by
  induction cs with
  | nil =>
    cases rest with
    | nil => simp [Text.replaceChar, readEnclosed]
    | cons d ds =>
      have hd : d ≠ mark := by simpa using h
      simp [Text.replaceChar, readEnclosed, hd]
  | cons c cs ih =>
    rw [Text.replaceChar_cons]
    by_cases hc : c = mark
    · simp [readEnclosed, hc, ih]
    · simp [readEnclosed_of_ne hc, hc, ih]

theorem takeWhile_append_of_head {p : Char → Bool} {cs : List Char} (hcs : ∀ c ∈ cs, p c = true)
    (hrest : ∀ c ∈ rest.head?, p c = false) :
    (cs ++ rest).takeWhile p = cs ∧ (cs ++ rest).dropWhile p = rest := by
  rw [List.takeWhile_append_of_pos hcs, List.dropWhile_append_of_pos hcs]
  cases rest with
  | nil => simp
  | cons c _ => simp [hrest c rfl]

/-- A text that needs no quotes is a word. -/
theorem isWord_of_needsQuotes {cs : List Char} (h : needsQuotes cs = false) :
    ∃ c ds, cs = c :: ds ∧ ∀ d ∈ cs, isWordChar d = true := by
  cases cs with
  | nil => contradiction
  | cons c ds =>
    simp only [needsQuotes, Bool.or_eq_false_iff, Bool.not_eq_false', List.all_eq_true] at h
    exact ⟨c, ds, rfl, h.2⟩

theorem readValue_word {cs : List Char} (h : needsQuotes cs = false)
    (hrest : ∀ c ∈ rest.head?, isWordChar c = false) :
    readValue (cs ++ rest) = some (String.ofList cs, rest) := by
  obtain ⟨c, ds, rfl, hword⟩ := isWord_of_needsQuotes h
  obtain ⟨htake, hdrop⟩ := takeWhile_append_of_head hword hrest
  have hc : c ≠ '"' := by
    rintro rfl
    have hquote := hword '"' List.mem_cons_self
    rw [isWordChar_of_mem_marks (by decide)] at hquote
    exact Bool.false_ne_true hquote
  rw [List.cons_append] at htake hdrop ⊢
  simp [readValue, hc, htake, hdrop, h]

theorem readValue_writeValue (s : String) (h : EndsValue rest) :
    readValue (writeValue s ++ rest) = some (s, rest) := by
  unfold writeValue
  split
  · have hquote : rest.head? ≠ some '"' := fun hhead => (h '"' hhead).2 rfl
    simp [quote, readValue, readEnclosed_replaceChar _ hquote]
  · rename_i hplain
    rw [readValue_word (Bool.eq_false_iff.2 hplain) fun c hc => (h c hc).1,
      String.ofList_toList]

/-! ## Comparisons -/

def isSignChar (c : Char) : Bool :=
  [':', '=', '<', '>', '~'].contains c

def readSign (cs : List Char) : Option (FieldOperator × List Char) :=
  (FieldOperator.ofSymbol? (String.ofList (cs.takeWhile isSignChar))).map fun op =>
    (op, cs.dropWhile isSignChar)

/-- A field name: a symbol that stands for itself, or a value. -/
def readName : List Char → Option (String × List Char)
  | '~' :: cs => some ("~", cs)
  | '@' :: cs => some ("@", cs)
  | cs => readValue cs

def readComparison (cs : List Char) : Option ((String × FieldOperator × String) × List Char) := do
  let (name, cs) ← readName cs
  let (op, cs) ← readSign cs
  let (value, cs) ← readValue cs
  return ((name, op, value), cs)

theorem isWordChar_of_isSignChar {c : Char} (h : isSignChar c = true) : isWordChar c = false :=
  isWordChar_of_mem_marks <|
    List.mem_append_right [' ', '(', ')', '[', ']', '\x7b', '"', '#', '@'] <|
      List.contains_iff_mem.1 h

/-- The first character of a value. -/
theorem exists_writeValue_eq (s : String) :
    ∃ c cs, writeValue s = c :: cs ∧ (c = '"' ∨ isWordChar c = true) := by
  unfold writeValue
  split
  · exact ⟨'"', _, rfl, .inl rfl⟩
  · rename_i hplain
    obtain ⟨c, cs, hcs, hword⟩ := isWord_of_needsQuotes (Bool.eq_false_iff.2 hplain)
    exact ⟨c, cs, hcs, .inr (hword c (hcs ▸ List.mem_cons_self))⟩

theorem ofSymbol?_symbol (op : FieldOperator) : FieldOperator.ofSymbol? op.symbol = some op := by
  cases op <;> rfl

theorem readSign_symbol (op : FieldOperator) (h : ∀ c ∈ rest.head?, isSignChar c = false) :
    readSign (op.symbol.toList ++ rest) = some (op, rest) := by
  have hsign : op.symbol.toList.all isSignChar = true := by cases op <;> decide
  obtain ⟨htake, hdrop⟩ := takeWhile_append_of_head (List.all_eq_true.1 hsign) h
  rw [readSign, htake, hdrop, String.ofList_toList, ofSymbol?_symbol]
  rfl

theorem readSign_eq_none (h : ∀ c ∈ rest.head?, isSignChar c = false) : readSign rest = none := by
  have htake : rest.takeWhile isSignChar = [] :=
    (takeWhile_append_of_head (List.forall_mem_nil _) h).1
  rw [readSign, htake]
  rfl

theorem not_isSignChar_head_writeValue (s : String) (rest : List Char) :
    ∀ c ∈ (writeValue s ++ rest).head?, isSignChar c = false := by
  obtain ⟨c, cs, hcs, hc⟩ := exists_writeValue_eq s
  rw [hcs]
  rintro _ ⟨⟩
  rcases hc with rfl | hword
  · rfl
  · cases hsign : isSignChar c with
    | false => rfl
    | true =>
      rw [isWordChar_of_isSignChar hsign] at hword
      contradiction

theorem endsValue_symbol (op : FieldOperator) (rest : List Char) :
    EndsValue (op.symbol.toList ++ rest) := by
  cases op <;> rintro _ ⟨⟩ <;> exact ⟨isWordChar_of_mem_marks (by decide), by decide⟩

theorem writeName_eq (s : String) :
    writeName s = if s = "~" ∨ s = "@" then s.toList else writeValue s := by
  have hstar : writeValue "*" = ['*'] := by decide
  unfold writeName
  by_cases h : s = "*"
  · subst h
    simpa using hstar.symm
  · simp [h]

theorem readName_writeValue (s : String) (h : EndsValue rest) :
    readName (writeValue s ++ rest) = some (s, rest) := by
  rw [← readValue_writeValue s h]
  obtain ⟨c, cs, hcs, hc⟩ := exists_writeValue_eq s
  have hnot : c ≠ '~' ∧ c ≠ '@' := by
    rcases hc with rfl | hword
    · decide
    · constructor <;> rintro rfl <;> rw [isWordChar_of_mem_marks (by decide)] at hword <;>
        contradiction
  rw [hcs]
  simp [readName, hnot]

theorem readName_writeName (s : String) (h : EndsValue rest) :
    readName (writeName s ++ rest) = some (s, rest) := by
  rw [writeName_eq]
  split
  · rename_i hs
    rcases hs with rfl | rfl <;> rfl
  · exact readName_writeValue s h

theorem readComparison_write (name : String) (op : FieldOperator) (value : String)
    (h : EndsValue rest) :
    readComparison (writeName name ++ op.symbol.toList ++ writeValue value ++ rest) =
      some ((name, op, value), rest) := by
  have hsign := not_isSignChar_head_writeValue value rest
  simp only [readComparison, List.append_assoc]
  rw [readName_writeName name (endsValue_symbol op _), Option.bind_eq_bind, Option.bind_some]
  simp only [readSign_symbol op hsign, readValue_writeValue value h, Option.bind_eq_bind,
    Option.bind_some, Option.pure_def]

theorem readComparison_eq_none {cs : List Char} {name : String}
    (hname : readName cs = some (name, rest)) (h : ∀ c ∈ rest.head?, isSignChar c = false) :
    readComparison cs = none := by
  simp [readComparison, hname, readSign_eq_none h]

/-! ## Fields -/

/-- Nothing goes on: a space or a closing bracket stands next, or the text is at its end. -/
def Ended (rest : List Char) : Prop :=
  ∀ c ∈ rest.head?, c ∈ [' ', ')', ']']

/-- A value behind a mark that stands for a field name. -/
def readShort (mark : Char) (name : String) : List Char → Option (FieldTerm × List Char)
  | [] => none
  | c :: cs =>
    if c = mark then (readValue cs).map fun (value, rest) => (⟨some name, .equal, value⟩, rest)
    else none

/-- A comparison, a free text, a tag or a person. -/
def readField (cs : List Char) : Option (FieldTerm × List Char) :=
  (readComparison cs).map (fun ((name, op, value), rest) => (⟨some name, op, value⟩, rest)) <|>
    (readValue cs).map (fun (value, rest) => (⟨none, .equal, value⟩, rest)) <|>
    readShort '#' "tag" cs <|> readShort '@' "@" cs

theorem ended_cons {c : Char} (h : c ∈ [' ', ')', ']']) (cs : List Char) : Ended (c :: cs) := by
  rintro _ ⟨⟩
  exact h

theorem Ended.endsValue (h : Ended rest) : EndsValue rest := by
  have hall : ∀ c ∈ [' ', ')', ']'], c ∈ marks ∧ c ≠ '"' := by simp [marks]
  intro c hc
  obtain ⟨hmark, hquote⟩ := hall c (h c hc)
  exact ⟨isWordChar_of_mem_marks hmark, hquote⟩

theorem Ended.not_isSignChar (h : Ended rest) : ∀ c ∈ rest.head?, isSignChar c = false := by
  have hall : ∀ c ∈ [' ', ')', ']'], isSignChar c = false := by simp [isSignChar]
  exact fun c hc => hall c (h c hc)

theorem readValue_eq_none {c : Char} (hquote : c ≠ '"')
    (h : isWordChar c = false ∨ startsOther c = true) (cs : List Char) :
    readValue (c :: cs) = none := by
  have hneeds : needsQuotes ((c :: cs).takeWhile isWordChar) = true := by
    cases hword : isWordChar c with
    | false => rw [List.takeWhile_cons_of_neg (by simp [hword])]; rfl
    | true =>
      have hstart : startsOther c = true := by simpa [hword] using h
      simp [hword, needsQuotes, hstart]
  simp [readValue, hquote, hneeds]

theorem readField_text (value : String) (h : Ended rest) :
    readField (writeValue value ++ rest) = some (⟨none, .equal, value⟩, rest) := by
  have hname := readName_writeValue value h.endsValue
  simp [readField, readComparison_eq_none hname h.not_isSignChar,
    readValue_writeValue value h.endsValue]

theorem readField_tag (value : String) (h : Ended rest) :
    readField ('#' :: (writeValue value ++ rest)) = some (⟨some "tag", .equal, value⟩, rest) := by
  have hnone (cs : List Char) : readValue ('#' :: cs) = none :=
    readValue_eq_none (by decide) (.inr rfl) cs
  simp [readField, readComparison, readName, hnone, readShort,
    readValue_writeValue value h.endsValue]

theorem readField_person (value : String) (h : Ended rest) :
    readField ('@' :: (writeValue value ++ rest)) = some (⟨some "@", .equal, value⟩, rest) := by
  have hnone (cs : List Char) : readValue ('@' :: cs) = none :=
    readValue_eq_none (by decide) (.inr rfl) cs
  have hcomparison : readComparison ('@' :: (writeValue value ++ rest)) = none :=
    readComparison_eq_none rfl (not_isSignChar_head_writeValue value rest)
  simp [readField, hcomparison, hnone, readShort, readValue_writeValue value h.endsValue]

theorem readField_writeField {t : FieldTerm} (ht : t.field = none → t.operator = .equal)
    (h : Ended rest) : readField (writeField t ++ rest) = some (t, rest) := by
  obtain ⟨field, op, value⟩ := t
  cases field with
  | none =>
    obtain rfl : op = .equal := ht rfl
    exact readField_text value h
  | some name =>
    unfold writeField
    dsimp only
    split_ifs with htag hperson
    · obtain ⟨rfl, rfl⟩ := htag
      exact readField_tag value h
    · obtain ⟨rfl, rfl⟩ := hperson
      exact readField_person value h
    · rw [readField, readComparison_write name op value h.endsValue]
      rfl

/-! ## Conditions on properties -/

def readPredicate (cs : List Char) : Option (PropertyPredicate × List Char) :=
  (readComparison cs).map (fun ((name, op, value), rest) => (⟨name, some op, some value⟩, rest)) <|>
    (readName cs).map (fun (name, rest) => (⟨name, none, none⟩, rest))

/-- Conditions with a space between each two, up to the bracket that closes them. -/
def readPredicates (cs : List Char) : Option (List PropertyPredicate × List Char) :=
  match readPredicate cs with
  | some (p, ' ' :: rest) =>
    if rest.length < cs.length then (readPredicates rest).map fun (ps, rest) => (p :: ps, rest)
    else none
  | some (p, ']' :: rest) => some ([p], rest)
  | _ => none
termination_by cs.length

theorem readPredicate_writePredicate (p : PropertyPredicate) (h : Ended rest) :
    readPredicate (writePredicate p ++ rest) = some (p.plain, rest) := by
  have hname (name : String) : readPredicate (writeName name ++ rest) =
      some (⟨name, none, none⟩, rest) := by
    have hread := readName_writeName name h.endsValue
    simp [readPredicate, readComparison_eq_none hread h.not_isSignChar, hread]
  obtain ⟨name, _ | op, _ | value⟩ := p
  · exact hname name
  · exact hname name
  · exact hname name
  · simp only [readPredicate, writePredicate]
    rw [readComparison_write name op value h.endsValue]
    rfl

theorem readPredicates_joinChars {ps : List PropertyPredicate} (hps : ps ≠ []) :
    readPredicates (joinChars [' '] (ps.map writePredicate) ++ ']' :: rest) =
      some (ps.map PropertyPredicate.plain, rest) := by
  induction ps with
  | nil => contradiction
  | cons p ps ih =>
    cases ps with
    | nil =>
      have hlast : readPredicate (writePredicate p ++ ']' :: rest) = some (p.plain, ']' :: rest) :=
        readPredicate_writePredicate p (ended_cons (by decide) rest)
      rw [readPredicates]
      simp [joinChars, hlast]
    | cons q qs =>
      have hfirst (cs : List Char) :
          readPredicate (writePredicate p ++ ' ' :: cs) = some (p.plain, ' ' :: cs) :=
        readPredicate_writePredicate p (ended_cons (by decide) cs)
      have hrest := ih (List.cons_ne_nil q qs)
      rw [readPredicates]
      simp only [joinChars, List.map_cons, List.intercalate_cons_cons] at hrest ⊢
      simp [hfirst, hrest]
      omega

/-! ## Leaves -/

def readProperties : List Char → Option (Term × List Char)
  | '[' :: cs =>
    (readPredicates cs <|> (Text.dropPrefix? [']'] cs).map fun rest => ([], rest)).map
      fun (ps, rest) => (.properties ps, rest)
  | _ => none

def readSaved : List Char → Option (Term × List Char)
  | '\x7b' :: cs =>
    (readEnclosed '\x7d' cs).map fun (name, rest) => (.saved (String.ofList name), rest)
  | _ => none

def readLeaf (cs : List Char) : Option (Term × List Char) :=
  (readField cs).map (fun (t, rest) => (.field t, rest)) <|> readProperties cs <|> readSaved cs

theorem readName_eq_none {c : Char} (hc : c ∈ [' ', '(', ')', '[', ']', '\x7b', '-'])
    (cs : List Char) : readName (c :: cs) = none := by
  have hall : ∀ c ∈ [' ', '(', ')', '[', ']', '\x7b', '-'],
      (c ≠ '~' ∧ c ≠ '@' ∧ c ≠ '"') ∧ (c ∈ marks ∨ startsOther c = true) := by
    simp [marks, startsOther]
  obtain ⟨⟨hlike, hperson, hquote⟩, hstart⟩ := hall c hc
  have hvalue := readValue_eq_none hquote (hstart.imp_left isWordChar_of_mem_marks) cs
  simp [readName, hlike, hperson, hvalue]

/-- Where no name can be read, no field can. -/
theorem readField_eq_none {c : Char} (hc : c ∈ [' ', '(', ')', '[', ']', '\x7b', '-'])
    (cs : List Char) : readField (c :: cs) = none := by
  have hall : ∀ c ∈ [' ', '(', ')', '[', ']', '\x7b', '-'],
      c ≠ '~' ∧ c ≠ '@' ∧ c ≠ '#' := by simp
  have hname := readName_eq_none hc cs
  obtain ⟨hlike, hperson, htag⟩ := hall c hc
  have hvalue : readValue (c :: cs) = none := by simpa [readName, hlike, hperson] using hname
  simp [readField, readComparison, hname, hvalue, readShort, htag, hperson]

theorem readLeaf_field {t : FieldTerm} (ht : t.field = none → t.operator = .equal)
    (h : Ended rest) : readLeaf (write (.field t) ++ rest) = some (.field t, rest) := by
  rw [write, readLeaf, readField_writeField ht h]
  rfl

theorem readLeaf_properties (ps : List PropertyPredicate) (rest : List Char) :
    readLeaf (write (.properties ps) ++ rest) =
      some (.properties (ps.map PropertyPredicate.plain), rest) := by
  have hfield (cs : List Char) : readField ('[' :: cs) = none := readField_eq_none (by decide) cs
  by_cases hps : ps = []
  · subst hps
    have hname : readName (']' :: rest) = none := readName_eq_none (by decide) rest
    have hnone : readPredicates (']' :: rest) = none := by
      rw [readPredicates]
      simp [readPredicate, readComparison, hname]
    simp [write, joinChars, readLeaf, hfield, readProperties, hnone, Text.dropPrefix?]
  · simp [write, readLeaf, hfield, readProperties, readPredicates_joinChars hps]

theorem readLeaf_saved (name : String) (h : Ended rest) :
    readLeaf (write (.saved name) ++ rest) = some (.saved name, rest) := by
  have hfield (cs : List Char) : readField ('\x7b' :: cs) = none :=
    readField_eq_none (by decide) cs
  have hclosed : rest.head? ≠ some '\x7d' := fun hhead => absurd (h _ hhead) (by decide)
  simp [write, readLeaf, hfield, readProperties, readSaved, readEnclosed_replaceChar _ hclosed]

/-- Brackets, signs of negation and separators start no leaf. -/
theorem readLeaf_eq_none {c : Char} (hc : c ∈ [' ', '(', ')', '-']) (cs : List Char) :
    readLeaf (c :: cs) = none := by
  have hall : ∀ c ∈ [' ', '(', ')', '-'], c ∈ [' ', '(', ')', '[', ']', '\x7b', '-'] ∧
      c ≠ '[' ∧ c ≠ '\x7b' := by simp
  obtain ⟨hmem, hbracket, hbrace⟩ := hall c hc
  simp [readLeaf, readField_eq_none hmem, readProperties, readSaved, hbracket, hbrace]

/-- The word between two options is no leaf. -/
theorem readLeaf_or (cs : List Char) : readLeaf ('O' :: 'R' :: ' ' :: cs) = none := by
  have hspace : isWordChar ' ' = false := isWordChar_of_mem_marks (by decide)
  have hword : isWordChar 'O' = true ∧ isWordChar 'R' = true := by
    simp [isWordChar, Text.isAlphanumeric_eq]
  have hvalue : readValue ('O' :: 'R' :: ' ' :: cs) = none := by
    simp [readValue, hspace, hword, needsQuotes]
  simp [readLeaf, readField, readComparison, readName, hvalue, readShort, readProperties,
    readSaved]

end TagQuery.Term
