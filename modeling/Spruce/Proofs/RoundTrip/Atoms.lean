import Spruce.Proofs.RoundTrip.Equality
import Spruce.Proofs.RoundTrip.Grammatical
import Spruce.Proofs.RoundTrip.Reads
import Spruce.Tree.NumberLiteral

set_option autoImplicit false

/-!
# Names, operators and numbers are read as they are printed

Each part of a printed program starts with a character that neither blanks nor symbols run into,
and it is read as what it was printed from before any delimiter (`ReadsAs`). This module is about
the parts that have no parts with a meaning of their own.
-/

namespace Spruce

variable {filename : Option String}

/-- Before any delimiter, a text is read as a nonterminal with a meaning, and it starts in such a
way that blanks and symbols end before it. -/
structure ReadsAs (filename : Option String) (x : Nonterminal) (text : Text)
    (P : x.Meaning → Prop) : Prop where
  begins : text.Begins isStart
  reads : Reads filename isDelimiter (.sub x) text P

theorem ReadsAs.opens_apart {x : Nonterminal} {text : Text} {P : x.Meaning → Prop}
    (h : ReadsAs filename x text P) (rest : Text) : Text.Opens isApart (text ++ rest) :=
  ((h.begins.mono fun _ => isApart_of_isStart).append rest).opens

/-! ## Names, operators and numbers -/

theorem wordKind_cases (w : Text) :
    wordKind w = .identifier ∨ wordKind w = .typeKeyword ∨ wordKind w = .caseKeyword ∨
      wordKind w = .mutKeyword := by
  simpa only [Terminal.keywords, List.mem_cons, List.not_mem_nil, or_false] using wordKind_mem w

theorem IsName.begins {s : String} (h : IsName s) : Text.Begins isStart s.toList := by
  rw [IsName] at h
  cases hs : s.toList with
  | nil =>
      rw [hs] at h
      exact absurd h Bool.false_ne_true
  | cons c cs =>
      rw [hs] at h
      have hletter : isLetter c = true := (Bool.and_eq_true_iff.1 h).1
      exact Text.begins_cons (by simp [isStart, isAlphanumeric, hletter]) cs

/-- A name is read as itself, even if it is spelled like a keyword. -/
theorem ReadsAs.name {s : String} (h : IsName s) :
    ReadsAs filename .name s.toList fun name => name = s := by
  refine ⟨h.begins, ?_⟩
  have htoken : Reads filename isDelimiter (.tok (wordKind s.toList)) s.toList
      fun token => token.text = s.toList :=
    .token fun rest hrest => lexeme_name h (Text.Delimited.not_alphanumeric hrest)
  have hname : ∀ token : Token, token.text = s.toList → token.name = s := by
    intro token htext
    rw [Token.name, htext, String.ofList_toList]
  -- the kind of the token tells by which rule it is a name, its text which name it is
  rcases wordKind_cases s.toList with hk | hk | hk | hk <;> rw [hk] at htoken
  · exact .node (by decide) .identifierName (.last htoken) fun _ ms h => hname ms.1 h
  · exact .node (by decide) .typeName (.last htoken) fun _ ms h => hname ms.1 h
  · exact .node (by decide) .caseName (.last htoken) fun _ ms h => hname ms.1 h
  · exact .node (by decide) .mutName (.last htoken) fun _ ms h => hname ms.1 h

/-- An operator is read as itself before a blank. -/
theorem Reads.operator (o : Operator) :
    Reads filename isApart (.sub .operator) o.sign.toList fun o' => o' = o := by
  have hx : Nonterminal.operator ≠ .number := by decide
  cases o with
  | add => exact .node hx .addOperator (.last (.symbol (by decide))) fun _ _ _ => rfl
  | subtract => exact .node hx .subtractOperator (.last (.symbol (by decide))) fun _ _ _ => rfl
  | multiply => exact .node hx .multiplyOperator (.last (.symbol (by decide))) fun _ _ _ => rfl
  | divide => exact .node hx .divideOperator (.last (.symbol (by decide))) fun _ _ _ => rfl
  | power => exact .node hx .powerOperator (.last (.symbol (by decide))) fun _ _ _ => rfl
  | modulo => exact .node hx .moduloOperator (.last (.symbol (by decide))) fun _ _ _ => rfl
  | equal => exact .node hx .equalOperator (.last (.symbol (by decide))) fun _ _ _ => rfl
  | notEqual => exact .node hx .notEqualOperator (.last (.symbol (by decide))) fun _ _ _ => rfl
  | lessEqual => exact .node hx .lessEqualOperator (.last (.symbol (by decide))) fun _ _ _ => rfl
  | greaterEqual =>
      exact .node hx .greaterEqualOperator (.last (.symbol (by decide))) fun _ _ _ => rfl
  | less => exact .node hx .lessOperator (.last (.symbol (by decide))) fun _ _ _ => rfl
  | greater => exact .node hx .greaterOperator (.last (.symbol (by decide))) fun _ _ _ => rfl

section

variable {span : Option Span} {integer : String} {fraction exponent : Option String}

theorem numberText_eq (sign : String) :
    numberText (.text sign) (.text integer) (.optionalText fraction) (.optionalText exponent) =
      sign.toList ++ numeralText integer.toList (fraction.map String.toList)
        (exponent.map String.toList) := by
  have hdisplay : ∀ s : Option String, (Value.optionalText s).optionalDisplay =
      s.map String.toList := by
    intro s
    cases s <;> rfl
  rw [numberText, literalText, hdisplay, hdisplay, numeralText]
  simp only [Value.display, List.append_assoc]

/-- The node of a numeral has the pieces that the numeral is made of. -/
theorem equal_numberNode {number : Token} {span' : Option Span} (sign : String)
    (h : IsNumeral integer.toList (fraction.map String.toList) (exponent.map String.toList))
    (htext : number.text = numeralText integer.toList (fraction.map String.toList)
      (exponent.map String.toList)) :
    (numberNode span' sign.toList number).equal (.number span (.text sign) (.text integer)
      (.optionalText fraction) (.optionalText exponent)) = true := by
  have hpieces := numeralPieces_numeralText h
  have hback : ∀ s : Option String, (s.map String.toList).map String.ofList = s := by
    intro s
    cases s <;> simp
  rw [hback, hback, String.ofList_toList] at hpieces
  rw [numberNode, htext, hpieces, String.ofList_toList]
  exact Node.equal_of_fields (equalAll_cons (Value.equal_text _) (equalAll_cons (Value.equal_text _)
    (equalAll_cons (Value.equal_optionalText _) (equalAll_cons (Value.equal_optionalText _) rfl))))

theorem isStart_of_isDigit {c : Char} (h : isDigit c = true) : isStart c = true := by
  simp [isStart, isAlphanumeric, h]

/-- A sign and the numeral that starts where it ends are a number without a detached sign. -/
theorem exists_signedNumber (filename : Option String) (sign digits : Token)
    (hsign : sign.kind = .plus ∨ sign.kind = .minus) (h : digits.kind = .number)
    (hstop : sign.stop = digits.start.offset) :
    ∃ d : Derivation (.sub .number), d.IsTight ∧ d.tokens = [sign, digits] ∧
      ∃ span, (d.understand filename).meaning = numberNode span sign.text digits := by
  rcases hsign with hplus | hminus
  · exact ⟨.node .signedNumber (.cons (.node .plusSign (.cons (.token .plus sign hplus) .nil))
      (.cons (.token .number digits h) .nil)), if_pos hstop, rfl, _, rfl⟩
  · exact ⟨.node .signedNumber (.cons (.node .minusSign (.cons (.token .minus sign hminus) .nil))
      (.cons (.token .number digits h) .nil)), if_pos hstop, rfl, _, rfl⟩

/-- What is cut off as a numeral is read as a number. -/
theorem Reads.unsignedNumber {text : Text} (hlexeme : ∀ rest, Text.Delimited rest →
      lexeme (text ++ rest) = some ⟨some .number, text⟩) :
    Reads filename isDelimiter (.sub .number) text fun n =>
      ∃ span digits, digits.text = text ∧ n = numberNode span [] digits := by
  intro p rest hrest
  exact ⟨.node .unsignedNumber (.cons (.token .number (Token.at .number text p) rfl) .nil), rfl,
    ⟨_, _, rfl, rfl⟩, lexFrom_token (hlexeme rest hrest) p⟩

/-- With a sign directly before it, it is still read as a number. -/
theorem Reads.signedNumber {t : Terminal} (ht : t = .plus ∨ t = .minus) {text : Text}
    (hbegins : text.Begins isDigit) (hlexeme : ∀ rest, Text.Delimited rest →
      lexeme (text ++ rest) = some ⟨some .number, text⟩) :
    Reads filename isDelimiter (.sub .number) (t.spelling ++ text) fun n =>
      ∃ span digits, digits.text = text ∧ n = numberNode span t.spelling digits := by
  intro p rest hrest
  have hsymbol : t ∈ Terminal.symbols := by rcases ht with rfl | rfl <;> decide
  have hopens : Text.Opens isApart (text ++ rest) :=
    ((hbegins.mono fun _ hc => isApart_of_isStart (isStart_of_isDigit hc)).append rest).opens
  -- the numeral starts where the sign ends
  obtain ⟨d, htight, htokens, span, hmeaning⟩ := exists_signedNumber filename
    (Token.at t t.spelling p) (Token.at .number text (p.advance t.spelling)) ht rfl rfl
  refine ⟨d, htight, ⟨span, _, rfl, hmeaning⟩, ?_⟩
  -- the sign is cut off first, as a digit makes no longer symbol of it
  rw [List.append_assoc, lexFrom_token (lexeme_symbol hsymbol hopens),
    lexFrom_token (hlexeme rest hrest), ← Lexed.prepend_append, Position.advance_append, htokens]
  rfl

theorem numeralText_begins
    (h : IsNumeral integer.toList (fraction.map String.toList) (exponent.map String.toList)) :
    (numeralText integer.toList (fraction.map String.toList)
      (exponent.map String.toList)).Begins isDigit := by
  obtain ⟨c, cs, hcs⟩ := List.exists_cons_of_ne_nil h.integer_ne_nil
  refine ⟨c, _, by rw [numeralText, hcs]; rfl, h.integer_isDigits c ?_⟩
  rw [hcs]
  exact List.mem_cons_self

/-- A number is read as itself, with its sign if it has one. -/
theorem ReadsAs.number {sign : String} (hsign : sign = "" ∨ sign = "+" ∨ sign = "-")
    (h : IsNumeral integer.toList (fraction.map String.toList) (exponent.map String.toList)) :
    ReadsAs filename .number (numberText (.text sign) (.text integer) (.optionalText fraction)
      (.optionalText exponent)) fun n => Node.equal n (.number span (.text sign) (.text integer)
        (.optionalText fraction) (.optionalText exponent)) = true := by
  have hbegins := numeralText_begins h
  rw [numberText_eq]
  -- with no sign there is one token, otherwise there are two
  rcases hsign with rfl | hsign
  · refine ⟨hbegins.mono fun c hc => isStart_of_isDigit hc, ?_⟩
    refine (Reads.unsignedNumber fun rest => lexeme_numeral h).imp ?_
    rintro n ⟨span', digits, htext, rfl⟩
    exact equal_numberNode "" h htext
  · obtain ⟨t, ht, hspelling⟩ : ∃ t : Terminal, (t = .plus ∨ t = .minus) ∧
        sign.toList = t.spelling := by
      rcases hsign with rfl | rfl
      · exact ⟨.plus, .inl rfl, rfl⟩
      · exact ⟨.minus, .inr rfl, rfl⟩
    rw [hspelling]
    refine ⟨?_, (Reads.signedNumber ht hbegins fun rest => lexeme_numeral h).imp ?_⟩
    · rcases ht with rfl | rfl <;> exact Text.begins_cons (by decide) _
    · rintro n ⟨span', digits, htext, rfl⟩
      rw [← hspelling]
      exact equal_numberNode sign h htext

end

end Spruce
