import Mathlib.Data.Option.Basic
import Spruce.Proofs.RoundTrip.Expressions

set_option autoImplicit false

/-!
# Statements and items are read as they are printed

Assignments, case constructs, bodies, declarations and whole programs: the printed form of each is
read as what it was printed from if the printed forms of its parts are. Indentation may be any
blanks, as the newline before it takes it in.
-/

namespace Spruce

variable {filename : Option String}

section

variable {span targetSpan : Option Span} {name : String}

/-! ## Assignments -/

/-- A name with a symbol after it. -/
theorem ReadsAll.named {s : Symbol} {after : Text} (hname : IsName name)
    (h : ReadsAll filename isApart [s] after fun _ => True)
    (hopens : ∀ rest, Text.Opens isApart rest → Text.Delimited (after ++ rest)) :
    ReadsAll filename isDelimiter [.sub .name, s] (name.toList ++ after) fun ms => ms.1 = name :=
  ((ReadsAll.cons (ReadsAs.name hname).reads h hopens).imp fun _ hms => hms.1).mono
    fun _ => isApart_of_isDelimiter

/-- The left-hand side of an assignment is read as its target. -/
theorem ReadsAs.target (kind : TargetKind) (hname : IsName name) :
    ReadsAs filename .target (assignmentText kind name.toList)
      fun m => Node.equal m (.target span (.targetKind kind) (.text name)) = true := by
  -- the symbol after the name, with a blank before it or not
  have hequal : ReadsAll filename isApart [.tok .equal] [' ', '='] fun _ => True :=
    .blank (.symbol (t := .equal) (by decide) .nil fun _ hrest => hrest)
  have hcolon : ReadsAll filename isApart [.tok .colon] [':'] fun _ => True :=
    .symbol (t := .colon) (by decide) .nil fun _ hrest => hrest
  have hnamed := ReadsAll.named hname hequal fun _ _ => Text.opens_cons.2 (by decide)
  cases kind with
  | bind =>
      refine ⟨hname.begins.append _, .node (by decide) .bindTarget hnamed ?_⟩
      rintro _ ⟨_, _⟩ rfl
      exact Node.equal_of_fields (equalAll_cons (Value.equal_targetKind _)
        (equalAll_cons (Value.equal_text _) rfl))
  | mutableBind =>
      refine ⟨Text.begins_cons (by decide) _, .node (by decide) .mutableTarget
        (.keyword (t := .mutKeyword) (by decide) hnamed) ?_⟩
      rintro _ ⟨_, _, _⟩ rfl
      exact Node.equal_of_fields (equalAll_cons (Value.equal_targetKind _)
        (equalAll_cons (Value.equal_text _) rfl))
  | update =>
      refine ⟨hname.begins.append _, .node (by decide) .updateTarget
        (.named hname hcolon fun _ _ => Text.opens_cons.2 (by decide)) ?_⟩
      rintro _ ⟨_, _⟩ rfl
      exact Node.equal_of_fields (equalAll_cons (Value.equal_targetKind _)
        (equalAll_cons (Value.equal_text _) rfl))

theorem ReadsAs.assignment {kind : TargetKind} {text : Text} {value : Node}
    (hname : IsName name)
    (hvalue : ReadsAs filename .assignedValue text fun m => Node.equal m value = true) :
    ReadsAs filename .assignment (assignmentText kind name.toList ++ ' ' :: text)
      fun m => Node.equal m (.assign span
        (.node (.target targetSpan (.targetKind kind) (.text name))) (.node value)) = true := by
  have htarget : ReadsAs filename .target _ fun m =>
      Node.equal m (.target targetSpan (.targetKind kind) (.text name)) = true := .target kind hname
  refine ⟨htarget.begins.append _, .node (by decide) .assignment (.spaced htarget.reads
    (.last hvalue.reads)) ?_⟩
  rintro _ ⟨_, _, _⟩ ⟨hequal, hvalue⟩
  exact Node.equal_of_fields (equalAll_cons hequal (equalAll_cons hvalue rfl))

/-! ## Bodies -/

section

variable {indent outer : Text} (hindent : indent.IsBlanks) (houter : outer.IsBlanks)
  {cs : List Text} {ns : List Node}
  {t : Option Text} {n : Option Node}

/-- Texts that are read as the statements of a body and as what gives it its value, if anything
does. -/
structure ReadsAsLines (filename : Option String) (cs : List Text) (t : Option Text)
    (ns : List Node) (n : Option Node) : Prop where
  statements : ReadsNodes filename .statement id cs ns
  trailing : Option.Rel (fun t n => ReadsAs filename .trailing t fun m => Node.equal m n = true) t n

theorem ReadsAsLines.begins (h : ReadsAsLines filename cs t ns n) :
    ∀ c ∈ cs ++ t.toList, c.Begins isStart := by
  obtain ⟨hstatements, htrailing⟩ := h
  intro c hc
  rcases List.mem_append.1 hc with hc | hc
  · exact begins_of_forall₂ hstatements c hc
  · cases htrailing with
    | none => exact absurd hc List.not_mem_nil
    | some hlast =>
        obtain rfl := List.mem_singleton.1 hc
        exact hlast.begins

include hindent houter

/-- Lines are read as those of a body if a nonterminal has rules for each way to go on. -/
theorem ReadsAsLines.reads (h : ReadsAsLines filename cs t ns n) {x : Nonterminal}
    (f : x.Meaning → Lines)
    (hnone : Reads filename isSolid (.sub x) [] fun m => Lines.Equal (f m) [] none)
    (htrailing : ∀ {text n}, ReadsAll filename isSolid [.sub .trailing, .tok .newline] text
      (fun ms => Node.equal ms.1 n = true) →
        Reads filename isSolid (.sub x) text fun m => Lines.Equal (f m) [] (some n))
    (hstatement : ∀ {text k ns}, ReadsAll filename isSolid [.sub .statement, .tok .newline, .sub x]
      text (fun ms => Node.equal ms.1 k = true ∧ Lines.Equal (f ms.2.2.1) ns n) →
        Reads filename isSolid (.sub x) text fun m => Lines.Equal (f m) (k :: ns) n) :
    Reads filename isSolid (.sub x) (stacked indent outer (cs ++ t.toList))
      fun m => Lines.Equal (f m) ns n := by
  -- what gives the value comes last, so that the statements are read before it
  have hlast : Reads filename isSolid (.sub x) (stacked indent outer t.toList)
      fun m => Lines.Equal (f m) [] n := by
    cases h.trailing with
    | none => exact hnone
    | @some last _ hlast =>
        have hline := ReadsAll.cons hlast.reads (.last (.newline houter))
          fun _ _ => Text.opens_cons.2 (by decide)
        have htext : stacked indent outer [last] = last ++ '\n' :: outer := by
          simp [stacked, leading]
        rw [Option.toList_some, htext]
        exact htrailing (hline.imp fun _ hms => hms.1)
  have hbegins : ∀ c ∈ t.toList, c.Begins isStart :=
    fun c hc => h.begins c (List.mem_append_right cs hc)
  exact (Reads.lines hindent houter (T := fun m ns => Lines.Equal (f m) ns n) hstatement hlast
    hbegins h.statements).1

theorem ReadsAsLines.body (h : ReadsAsLines filename cs t ns n) :
    Reads filename isSolid (.sub .body) (stacked indent outer (cs ++ t.toList))
      fun m => Node.equal m (.body span (.nodes ns) (.optionalNode n)) = true := by
  have hlines : Reads filename isSolid (.sub .bodyLines)
      (stacked indent outer (cs ++ t.toList)) fun m => Lines.Equal m ns n := by
    refine h.reads hindent houter (x := .bodyLines) id ?_ ?_ ?_
    · exact .node (by decide) .noLines .nil fun _ _ _ => ⟨.nil, trivial⟩
    · exact fun h => .node (by decide) .trailingLine h fun _ _ hms => ⟨.nil, hms⟩
    · exact fun h => .node (by decide) .statementLine h fun _ _ hms =>
        ⟨.cons hms.1 hms.2.1, hms.2.2⟩
  exact .node (by decide) .body (.last hlines) fun _ _ hms => hms.node

/-- The body of an arm is read alike, although its last line need not be ended. -/
theorem ReadsAsLines.armBody (h : ReadsAsLines filename cs t ns n) :
    Reads filename isSolid (.sub .armBody) (stacked indent outer (cs ++ t.toList))
      fun m => Node.equal m (.body span (.nodes ns) (.optionalNode n)) = true := by
  have hlines : Reads filename isSolid (.sub .armLines)
      (stacked indent outer (cs ++ t.toList)) fun m => Lines.Equal m ns n := by
    refine h.reads hindent houter (x := .armLines) id ?_ ?_ ?_
    · exact .node (by decide) .noArmLines .nil fun _ _ _ => ⟨.nil, trivial⟩
    -- a newline and what comes after it are read as one part, which may be left out
    · refine fun {text n} h => .node (by decide) .trailingArmLine
        (Q := fun ms => Node.equal ms.1 n = true) ?_ fun _ _ hms => ⟨.nil, hms⟩
      exact h.together (by decide) .newline fun _ _ _ hms => hms
    · refine fun {text k ns} h => .node (by decide) .statementArmLine
        (Q := fun ms => Node.equal ms.1 k = true ∧ Lines.Equal ms.2.1 ns n) ?_ fun _ _ hms =>
          ⟨.cons hms.1 hms.2.1, hms.2.2⟩
      exact h.together (by decide) .nextArmLines fun _ _ _ hms => hms
  exact .node (by decide) .armBody (.last hlines) fun _ _ hms => hms.node

/-! ## Case constructs -/

omit hindent houter in
theorem ReadsAs.pattern {bindings : List String} (hname : IsName name)
    (hbindings : ∀ s ∈ bindings, IsName s) :
    ReadsAs filename .pattern (name.toList ++ optionalParens (bindings.map String.toList))
      fun m => Node.equal m (.casePattern span (.text name) (.names bindings)) = true := by
  refine ⟨hname.begins.append _, .node (by decide) .pattern (.cons (ReadsAs.name hname).reads
    (.last (.bindings hbindings)) fun _ => optionalParens_opens) ?_⟩
  rintro _ ⟨_, _, _⟩ ⟨rfl, rfl⟩
  exact Node.equal_of_fields (equalAll_cons (Value.equal_text _)
    (equalAll_cons (Value.equal_names _) rfl))

/-- A body in braces is read as what an arm leads to. -/
theorem ReadsAsLines.arm (h : ReadsAsLines filename cs t ns n) :
    Reads filename isDelimiter (.sub .arm)
      (bracedLines outer ((cs ++ t.toList).map fun c => indent ++ c))
      fun m => Node.equal m (.body span (.nodes ns) (.optionalNode n)) = true := by
  have hnewline : Reads filename isSolid (.sub .optionalNewline)
      ('\n' :: leading indent outer (cs ++ t.toList)) fun _ => True :=
    .node (by decide) .newline (.last (.newline (leading_isBlanks hindent houter _)))
      fun _ _ _ => trivial
  have hbody : Reads filename isSolid (.sub .armBody) _ fun m =>
      Node.equal m (.body span (.nodes ns) (.optionalNode n)) = true := h.armBody hindent houter
  have hbraces := ReadsAll.inBraces hnewline hbody h.begins
  exact (Reads.node (by decide) .bodyArm hbraces fun _ _ hms => hms).mono
    fun _ => isApart_of_isDelimiter

omit hindent houter in
theorem ReadsAs.caseOption {pattern value : Node} {left right : Text}
    (hpattern : ReadsAs filename .pattern left fun m => Node.equal m pattern = true)
    (hvalue : Reads filename isDelimiter (.sub .arm) right fun m => Node.equal m value = true) :
    ReadsAs filename .caseOption (left ++ " -> ".toList ++ right)
      fun m => Node.equal m (.caseOption span (.node pattern) (.node value)) = true := by
  have harrow : ReadsAll filename isDelimiter [.tok .arrow, .sub .arm] ('-' :: '>' :: ' ' :: right)
      fun ms => Node.equal ms.2.1 value = true :=
    .symbol (t := .arrow) (by decide) (.blank (.last hvalue))
      fun _ _ => Text.opens_cons.2 (by decide)
  have htext : left ++ " -> ".toList ++ right = left ++ ' ' :: '-' :: '>' :: ' ' :: right := by
    rw [List.append_assoc]
    rfl
  rw [htext]
  refine ⟨hpattern.begins.append _, .node (by decide) .caseOption (.spaced hpattern.reads
    harrow) ?_⟩
  rintro _ ⟨_, _, _, _⟩ ⟨hpattern, hvalue⟩
  exact Node.equal_of_fields (equalAll_cons hpattern (equalAll_cons hvalue rfl))

theorem ReadsNodes.caseOptions (h : ReadsNodes filename .caseOption id cs ns) (hne : ns ≠ []) :
    Reads filename isSolid (.sub .caseOptions) (stacked indent outer cs)
      fun m => NodesEqual m ns := by
  refine Reads.someLines hindent houter (L := .caseOptions) (M := .moreCaseOptions)
    (S := NodesEqual) (T := NodesEqual) ?_ ?_ ?_ h hne
  · exact fun h => .node (by decide) .caseOptions h fun _ _ hms => .cons hms.1 hms.2
  · exact .node (by decide) .lastCaseOption .nil fun _ _ _ => .nil
  · exact fun h => .node (by decide) .nextCaseOptions (.last h) fun _ _ hms => hms

theorem ReadsAs.caseExpr {scrutinee : Node} {text : Text}
    (hscrutinee : ReadsAs filename .expression text fun m => Node.equal m scrutinee = true)
    (h : ReadsNodes filename .caseOption id cs ns) (hne : ns ≠ []) :
    ReadsAs filename .caseExpr (caseText outer text (cs.map fun c => indent ++ c))
      fun m => Node.equal m (.caseOf span (.node scrutinee) (.nodes ns)) = true := by
  have hnewline : Reads filename isSolid (.sub .optionalNewline)
      ('\n' :: leading indent outer cs) fun _ => True :=
    .node (by decide) .newline (.last (.newline (leading_isBlanks hindent houter cs)))
      fun _ _ _ => trivial
  have hbraces := ReadsAll.inBraces hnewline (h.caseOptions hindent houter hne)
    (begins_of_forall₂ h)
  have hcase := ReadsAll.keyword (t := .caseKeyword) (by decide) (.spaced hscrutinee.reads
    hbraces)
  show ReadsAs filename .caseExpr
    ("case ".toList ++ text ++ ' ' :: bracedLines outer (cs.map fun c => indent ++ c)) _
  rw [List.append_assoc]
  refine ⟨Text.begins_cons (by decide) _, (Reads.node (by decide) .caseExpr hcase ?_).mono
    fun _ => isApart_of_isDelimiter⟩
  rintro _ ⟨_, _, _, _, _, _, _⟩ ⟨hscrutinee, hoptions⟩
  exact Node.equal_of_fields (equalAll_cons hscrutinee
    (equalAll_cons (NodesEqual.equal_nodes hoptions) rfl))

/-! ## Items -/

theorem ReadsAsLines.functionDecl {parameters : List String} (hname : IsName name)
    (hparameters : ∀ s ∈ parameters, IsName s) {bodySpan : Option Span}
    (h : ReadsAsLines filename cs t ns n) :
    ReadsAs filename .functionDecl (name.toList ++ parenthesised (parameters.map String.toList) ++
      ' ' :: bracedLines outer ((cs ++ t.toList).map fun c => indent ++ c))
      fun m => Node.equal m (.functionDecl span (.text name) (.names parameters)
        (.node (.body bodySpan (.nodes ns) (.optionalNode n)))) = true := by
  have hbody : Reads filename isSolid (.sub .body) _ fun m =>
      Node.equal m (.body bodySpan (.nodes ns) (.optionalNode n)) = true := h.body hindent houter
  have hbraces := ReadsAll.inBraces (.newline (leading_isBlanks hindent houter _)) hbody h.begins
  -- from the brace back to the name
  have hhead := ReadsAll.inParens (Reads.optionalNames hparameters)
    (fun _ => commaSeparated_opens (names_begin hparameters) (Text.opens_cons.2 (by decide)))
    hbraces.blank fun _ _ => Text.opens_cons.2 (by decide)
  have htext : ∀ block : Text,
      name.toList ++ parenthesised (parameters.map String.toList) ++ ' ' :: block = name.toList ++
        ('(' :: commaSeparated (parameters.map String.toList) ++ ')' :: ' ' :: block) := by
    simp [parenthesised]
  rw [htext]
  refine ⟨hname.begins.append _, (Reads.node (by decide) .functionDecl (.cons
    (ReadsAs.name hname).reads hhead fun _ _ => Text.opens_cons.2 (by decide)) ?_).mono
      fun _ => isApart_of_isDelimiter⟩
  rintro _ ⟨_, _, _, _, _, _, _, _, _⟩ ⟨rfl, rfl, hbody⟩
  exact Node.equal_of_fields (equalAll_cons (Value.equal_text _)
    (equalAll_cons (Value.equal_names _) (equalAll_cons hbody rfl)))

theorem ReadsNodes.typeOptions (h : ReadsNodes filename .typeOption id cs ns) (hne : ns ≠ []) :
    Reads filename isSolid (.sub .typeOptions) (stacked indent outer cs)
      fun m => NodesEqual m ns := by
  refine Reads.someLines hindent houter (L := .typeOptions) (M := .moreTypeOptions)
    (S := NodesEqual) (T := NodesEqual) ?_ ?_ ?_ h hne
  · exact fun h => .node (by decide) .typeOptions h fun _ _ hms => .cons hms.1 hms.2
  · exact .node (by decide) .lastTypeOption .nil fun _ _ _ => .nil
  · exact fun h => .node (by decide) .nextTypeOptions (.last h) fun _ _ hms => hms

theorem ReadsAs.typeDecl {parameters : List String} (hname : IsName name)
    (hparameters : ∀ s ∈ parameters, IsName s) (h : ReadsNodes filename .typeOption id cs ns)
    (hne : ns ≠ []) :
    ReadsAs filename .typeDecl ("type ".toList ++ name.toList ++
      optionalParens (parameters.map String.toList) ++
        ' ' :: bracedLines outer (cs.map fun c => indent ++ c))
      fun m => Node.equal m (.typeDecl span (.text name) (.names parameters)
        (.nodes ns)) = true := by
  have hbraces := ReadsAll.inBraces (.newline (leading_isBlanks hindent houter cs))
    (h.typeOptions hindent houter hne) (begins_of_forall₂ h)
  have hlater := ReadsAll.spaced (Reads.typeParameters hparameters) hbraces
  have hhead := ReadsAll.keyword (t := .typeKeyword) (by decide) (.cons
    (ReadsAs.name hname).reads hlater fun rest _ => ?_)
  · rw [List.append_assoc, List.append_assoc]
    refine ⟨Text.begins_cons (by decide) _, (Reads.node (by decide) .typeDecl hhead ?_).mono
      fun _ => isApart_of_isDelimiter⟩
    rintro _ ⟨_, _, _, _, _, _, _, _⟩ ⟨rfl, rfl, hoptions⟩
    exact Node.equal_of_fields (equalAll_cons (Value.equal_text _)
      (equalAll_cons (Value.equal_names _) (equalAll_cons (NodesEqual.equal_nodes hoptions) rfl)))
  · rw [List.append_assoc]
    exact optionalParens_opens (Text.opens_cons.2 (by decide))

end

end

/-! ## Programs -/

theorem leading_nil (cs : List Text) : leading [] [] cs = [] := by
  cases cs <;> rfl

theorem linesText_eq_stacked (cs : List Text) : linesText cs = stacked [] [] cs := by
  have h := linesText_indented [] [] cs
  rw [List.append_nil, leading_nil] at h
  simpa using h

/-- Items, each on lines of its own, are read as a program. -/
theorem ReadsNodes.program {span : Option Span} {cs : List Text} {ns : List Node}
    (h : ReadsNodes filename .item id cs ns) :
    Reads filename isSolid (.sub .program) (linesText cs)
      fun m => Node.equal m (.program span (.nodes ns)) = true := by
  have hnone : Reads filename isSolid (.sub .optionalNewline) [] fun _ => True :=
    .node (by decide) .noNewline .nil fun _ _ _ => trivial
  -- items are lines without indentation
  have hitems := Reads.lines Text.IsBlanks.nil Text.IsBlanks.nil (M := .items) (T := NodesEqual) ?_
    (show Reads filename isSolid (.sub .items) (stacked [] [] []) _ from
      .node (by decide) .noItems .nil fun _ _ _ => .nil)
    (fun _ hc => absurd hc List.not_mem_nil) h
  · rw [List.append_nil] at hitems
    rw [linesText_eq_stacked]
    refine .node (by decide) .program (.cons hnone (.last hitems.1) fun _ hrest =>
      stacked_opens hitems.2 hrest) ?_
    rintro _ ⟨_, _, _⟩ ⟨-, hitems⟩
    exact Node.equal_of_fields (equalAll_cons (NodesEqual.equal_nodes hitems) rfl)
  · intro text n ns h
    refine .node (by decide) .someItems (Q := fun ms => Node.equal ms.1 n = true ∧
      NodesEqual ms.2.1 ns) ?_ fun _ _ hms => .cons hms.1 hms.2
    exact h.together (by decide) .nextItems fun _ _ _ hms => hms

end Spruce
