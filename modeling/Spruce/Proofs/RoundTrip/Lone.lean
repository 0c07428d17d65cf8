import Spruce.Proofs.RoundTrip.Printing

set_option autoImplicit false

/-!
# Printed expressions are read back

A text that is read as what a whole text is derived from is accepted, and its tree is what it is
read as (`exists_parse_of_reads`). Every grammatical expression has a printed form, and parsing that
as a lone expression gives an expression that equals the printed one (`parse_printExpr`). A lone
call is no exception here, as an expression by itself is no line of a body.
-/

namespace Spruce

variable {filename : Option String}

/-! ## Whole texts -/

/-- A text that is read as what a whole text is derived from is accepted. -/
theorem exists_parse_of_reads {start : Start} {follow : Char → Bool} {text : Text}
    {P : start.goal.Meaning → Prop} (h : Reads filename follow start.goal text P) :
    ∃ m, P m ∧ (parse start filename text).outcome = .ok (start.node m) := by
  -- nothing comes after the text
  have hend : Text.Opens follow [] := fun _ hc => absurd hc (Option.not_mem_none _)
  obtain ⟨d, htight, hP, hlex⟩ := h .origin [] hend
  rw [List.append_nil] at hlex
  obtain ⟨htokens, hrest⟩ := lex_eq_of_lexFrom hlex
  have hsigns : (start.phrase d).detachedSigns = [] := by
    cases start <;> exact htight
  exact ⟨_, hP, parse_eq_ok_iff.2 ⟨hrest, d, htokens.symm, hsigns, rfl⟩⟩

/-- What is read as an expression is read as a lone expression, with no newline on either side. -/
theorem ReadsAs.loneExpression {text : Text} {P : Node → Prop}
    (h : ReadsAs filename .expression text P) :
    Reads filename isDelimiter (.sub .loneExpression) text P := by
  have hnone : ∀ follow : Char → Bool,
      Reads filename follow (.sub .optionalNewline) [] fun _ => True :=
    fun _ => .node (by decide) .noNewline .nil fun _ _ _ => trivial
  have hlater := ReadsAll.cons h.reads (.last (hnone _)) fun _ hrest => hrest
  have hwhole := ReadsAll.cons (hnone fun _ => true) hlater
    fun _ _ => fun _ _ => rfl
  rw [List.append_nil] at hwhole
  exact .node (by decide) .loneExpression hwhole fun _ _ hms => hms.2.1

/-! ## Round trip -/

/-- A grammatical expression has a printed form, and parsing that gives an equal expression. -/
theorem parse_printExpr (filename : Option String) {e : Node} (h : Grammatical .expression e) :
    ∃ text n, e.printExpr = .ok text ∧
      (parseExpression filename (String.ofList text)).outcome = .ok n ∧ n.equal e = true := by
  obtain ⟨-, text, hprint, hreads⟩ := h.printed filename
  have hlone : Reads filename isDelimiter Start.expression.goal text
      fun m => Node.equal m e = true := hreads.expression.loneExpression
  obtain ⟨n, hequal, hparse⟩ := exists_parse_of_reads hlone
  refine ⟨text, n, hprint, ?_, hequal⟩
  rw [parseExpression, String.toList_ofList]
  exact hparse

/-- `case(x - -1.e+2)`. -/
def keywordCall : Node := .call none (.text "case") (.nodes [difference])

/-- `case(x - -1.e+2) ^ ((mut))`, with as many parentheses as there are expressions. -/
def nestedExpression : Node :=
  .expr none (.nodes [keywordCall,
    .expr none (.nodes [nameExpr "mut"]) (.operators [])]) (.operators [.power])

theorem parse_printExpr_nested : Grammatical .expression nestedExpression ∧
    ∃ text n, nestedExpression.printExpr = .ok text ∧
      (parseExpression none (String.ofList text)).outcome = .ok n ∧
        n.equal nestedExpression = true := by
  have hcall : Grammatical .call keywordCall :=
    .call (by decide) (List.forall_mem_singleton.2 grammatical_difference)
  have hinner : Grammatical .term (nameExpr "mut") :=
    .expressionTerm (grammatical_nameExpr (by decide))
  have houter : Grammatical .expression (.expr none (.nodes [nameExpr "mut"]) (.operators [])) :=
    .expr rfl (List.forall_mem_singleton.2 hinner)
  have h : Grammatical .expression nestedExpression :=
    .expr rfl (List.forall_mem_cons.2 ⟨.callTerm hcall,
      List.forall_mem_singleton.2 (.expressionTerm houter)⟩)
  exact ⟨h, parse_printExpr none h⟩

end Spruce
