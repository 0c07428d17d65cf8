import Spruce.Proofs.RoundTrip.Lists

set_option autoImplicit false

/-!
# Types and expressions are read as they are printed

Names in lists, type expressions and expressions: the printed form of each is read as what it was
printed from if the printed forms of its parts are. An expression that gives a body its value is
read by rules of its own, so that two readings of it are kept side by side, the second for what is
no lone call (`ReadsAsTerm`, `ReadsAsExpression`).
-/

namespace Spruce

variable {filename : Option String}

/-! ## Names -/

theorem forall₂_names {names : List String} (h : ∀ s ∈ names, IsName s) :
    List.Forall₂ (fun (t : Text) (s : String) => ReadsAs filename .name t fun m => m = s)
      (names.map String.toList) names := by
  rw [List.forall₂_map_left_iff]
  exact List.forall₂_same.2 fun s hs => ReadsAs.name (h s hs)

theorem names_begin {names : List String} (h : ∀ s ∈ names, IsName s) :
    ∀ t ∈ names.map String.toList, Text.Begins isStart t := by
  intro t ht
  obtain ⟨s, hs, rfl⟩ := List.mem_map.1 ht
  exact (h s hs).begins

theorem ReadsAs.names {names : List String} (h : ∀ s ∈ names, IsName s) (hne : names ≠ []) :
    ReadsAs filename .names (commaSeparated (names.map String.toList)) fun m => m = names := by
  refine ReadsAs.commaList (E := .name) (L := .names) (M := .moreNames)
    (S := fun m (ss : List String) => m = ss) (T := fun m (ss : List String) => m = ss)
    ?_ ?_ ?_ (forall₂_names h) hne
  · exact fun h => .node (by decide) .names h fun _ ms hms => by rw [← hms.1, ← hms.2]; rfl
  · exact .node (by decide) .lastName .nil fun _ _ _ => rfl
  · exact fun h => .node (by decide) .nextNames h fun _ _ hms => hms

/-- Names that may be none, as they stand between parentheses that are always there. -/
theorem Reads.optionalNames {names : List String} (h : ∀ s ∈ names, IsName s) :
    Reads filename isDelimiter (.sub .optionalNames) (commaSeparated (names.map String.toList))
      fun m => m = names := by
  cases names with
  | nil => exact .node (by decide) .noNames .nil fun _ _ _ => rfl
  | cons s ss =>
      exact .node (by decide) .someNames (.last (ReadsAs.names h (List.cons_ne_nil s ss)).reads)
        fun _ _ hms => hms

/-- A list in parentheses, or nothing for none. -/
def optionalParens (ts : List Text) : Text := if ts = [] then [] else parenthesised ts

theorem Reads.typeParameters {names : List String} (h : ∀ s ∈ names, IsName s) :
    Reads filename isDelimiter (.sub .typeParameters) (optionalParens (names.map String.toList))
      fun m => m = names := by
  cases names with
  | nil => exact .node (by decide) .noTypeParameters .nil fun _ _ _ => rfl
  | cons s ss =>
      exact (Reads.node (by decide) .typeParameters (ReadsAll.inParens (.optionalNames h)
        (fun _ => commaSeparated_opens (names_begin h) (Text.opens_cons.2 (by decide))) .nil
        fun _ hrest => hrest) fun _ _ hms => hms.1).mono fun _ => isApart_of_isDelimiter

theorem Reads.bindings {names : List String} (h : ∀ s ∈ names, IsName s) :
    Reads filename isDelimiter (.sub .bindings) (optionalParens (names.map String.toList))
      fun m => m = names := by
  cases names with
  | nil => exact .node (by decide) .noBindings .nil fun _ _ _ => rfl
  | cons s ss =>
      exact (Reads.node (by decide) .bindings (ReadsAs.names h (List.cons_ne_nil s ss)).inParens
        fun _ _ hms => hms).mono fun _ => isApart_of_isDelimiter

/-! ## Type expressions -/

section

variable {span : Option Span} {name : String} {ts : List Text} {ns : List Node}

/-- Texts that are read one by one as nodes; `f` takes a meaning as the node that it is. -/
abbrev ReadsNodes (filename : Option String) (x : Nonterminal) (f : x.Meaning → Node)
    (ts : List Text) (ns : List Node) : Prop :=
  List.Forall₂ (fun t n => ReadsAs filename x t fun m => (f m).equal n = true) ts ns

theorem ReadsAs.typeExprs (h : ReadsNodes filename .typeExpr id ts ns) (hne : ns ≠ []) :
    ReadsAs filename .typeExprs (commaSeparated ts) fun m => NodesEqual m ns := by
  refine ReadsAs.commaList (L := .typeExprs) (M := .moreTypeExprs) (S := NodesEqual)
    (T := NodesEqual) ?_ ?_ ?_ h hne
  · exact fun h => .node (by decide) .typeExprs h fun _ _ hms => .cons hms.1 hms.2
  · exact .node (by decide) .lastTypeExpr .nil fun _ _ _ => .nil
  · exact fun h => .node (by decide) .nextTypeExprs h fun _ _ hms => hms

theorem Reads.typeArguments (h : ReadsNodes filename .typeExpr id ts ns) :
    Reads filename isDelimiter (.sub .typeArguments) (optionalParens ts)
      fun m => NodesEqual m ns := by
  cases h with
  | nil => exact .node (by decide) .noTypeArguments .nil fun _ _ _ => .nil
  | @cons t n ts ns hfirst hlater =>
      have hwhole := ReadsAs.typeExprs (.cons hfirst hlater) (List.cons_ne_nil n ns)
      exact (Reads.node (by decide) .typeArguments hwhole.inParens fun _ _ hms => hms).mono
        fun _ => isApart_of_isDelimiter

theorem optionalParens_opens {rest : Text} (hrest : rest.Delimited) :
    Text.Delimited (optionalParens ts ++ rest) := by
  cases ts with
  | nil => exact hrest
  | cons t ts => exact Text.opens_cons.2 (by decide)

theorem ReadsAll.applied (hname : IsName name) (h : ReadsNodes filename .typeExpr id ts ns) :
    ReadsAll filename isDelimiter [.sub .name, .sub .typeArguments]
      (name.toList ++ optionalParens ts) fun ms => ms.1 = name ∧ NodesEqual ms.2.1 ns :=
  .cons (ReadsAs.name hname).reads (.last (.typeArguments h)) fun _ => optionalParens_opens

theorem ReadsAs.typeExpr (hname : IsName name) (h : ReadsNodes filename .typeExpr id ts ns) :
    ReadsAs filename .typeExpr (name.toList ++ optionalParens ts)
      fun m => Node.equal m (.typeExpr span (.text name) (.nodes ns)) = true := by
  refine ⟨hname.begins.append _, .node (by decide) .typeExpr (.applied hname h) ?_⟩
  rintro _ ⟨_, arguments, _⟩ ⟨rfl, harguments⟩
  exact Node.equal_of_nodes _ harguments

theorem ReadsAs.typeOption (hname : IsName name) (h : ReadsNodes filename .typeExpr id ts ns) :
    ReadsAs filename .typeOption (name.toList ++ optionalParens ts)
      fun m => Node.equal m (.typeOption span (.text name) (.nodes ns)) = true := by
  refine ⟨hname.begins.append _, .node (by decide) .typeOption (.applied hname h) ?_⟩
  rintro _ ⟨_, arguments, _⟩ ⟨rfl, harguments⟩
  exact Node.equal_of_nodes _ harguments

/-! ## Expressions -/

theorem ReadsAs.arguments (h : ReadsNodes filename .expression id ts ns) (hne : ns ≠ []) :
    ReadsAs filename .arguments (commaSeparated ts) fun m => NodesEqual m ns := by
  refine ReadsAs.commaList (L := .arguments) (M := .moreArguments) (S := NodesEqual)
    (T := NodesEqual) ?_ ?_ ?_ h hne
  · exact fun h => .node (by decide) .arguments h fun _ _ hms => .cons hms.1 hms.2
  · exact .node (by decide) .lastArgument .nil fun _ _ _ => .nil
  · exact fun h => .node (by decide) .nextArguments h fun _ _ hms => hms

theorem Reads.callArguments (h : ReadsNodes filename .expression id ts ns) :
    Reads filename isDelimiter (.sub .callArguments) (commaSeparated ts)
      fun m => NodesEqual m ns := by
  cases h with
  | nil => exact .node (by decide) .noArguments .nil fun _ _ _ => .nil
  | @cons t n ts ns hfirst hlater =>
      exact .node (by decide) .someArguments
        (.last (ReadsAs.arguments (.cons hfirst hlater) (List.cons_ne_nil n ns)).reads)
        fun _ _ hms => hms

theorem ReadsAs.call (hname : IsName name) (h : ReadsNodes filename .expression id ts ns) :
    ReadsAs filename .call (name.toList ++ parenthesised ts)
      fun m => Node.equal m (.call span (.text name) (.nodes ns)) = true := by
  have hbegins := begins_of_forall₂ h
  have hinner := ReadsAll.inParens (Reads.callArguments h)
    (fun _ => commaSeparated_opens hbegins (Text.opens_cons.2 (by decide))) .nil
    fun _ hrest => hrest
  refine ⟨hname.begins.append _, (Reads.node (by decide) .call (.cons (ReadsAs.name hname).reads
    hinner fun _ _ => Text.opens_cons.2 (by decide)) ?_).mono fun _ => isApart_of_isDelimiter⟩
  rintro _ ⟨_, _, arguments, _⟩ ⟨rfl, harguments, -⟩
  exact Node.equal_of_nodes _ harguments

theorem ReadsAs.reference (hname : IsName name) :
    ReadsAs filename .reference name.toList
      fun m => Node.equal m (.identifier span (.text name)) = true := by
  refine ⟨hname.begins, .node (by decide) .reference (.last (ReadsAs.name hname).reads) ?_⟩
  rintro _ ⟨_, _⟩ rfl
  exact Node.equal_of_fields (equalAll_cons (Value.equal_text _) rfl)

theorem ReadsAs.parenthesised {x : Nonterminal} {inner : Text} {P : x.Meaning → Prop}
    (h : ReadsAs filename x inner P) :
    ReadsAll filename isDelimiter [.tok .leftParen, .sub x, .tok .rightParen]
      (Spruce.parenthesised [inner]) fun ms => P ms.2.1 := by
  rw [Spruce.parenthesised, commaSeparated_single, List.append_nil]
  exact h.inParens.mono fun _ => isApart_of_isDelimiter

/-- Operators, each with the term after it. -/
def operandTexts : List Operator → List Text → List Text
  | o :: os, t :: ts => o.sign.toList :: t :: operandTexts os ts
  | _, _ => []

/-- Terms with operators between them. -/
def chainText (os : List Operator) (t : Text) (ts : List Text) : Text :=
  [' '].intercalate (t :: operandTexts os ts)

theorem chainText_nil (t : Text) (ts : List Text) : chainText [] t ts = t ++ [] := by
  simp [chainText, operandTexts]

theorem chainText_cons (o : Operator) (os : List Operator) (t u : Text) (ts : List Text) :
    chainText (o :: os) t (u :: ts) = t ++ ' ' :: (o.sign.toList ++ ' ' :: chainText os u ts) := by
  simp [chainText, operandTexts, List.intercalate, List.intersperse]

/-- An operator and the chain after it. -/
theorem ReadsAll.operand (o : Operator) {t : Text} {P : Chain → Prop}
    (h : ReadsAs filename .chain t P) :
    ReadsAll filename isDelimiter [.sub .operator, .sub .chain] (o.sign.toList ++ ' ' :: t)
      fun ms => ms.1 = o ∧ P ms.2.1 :=
  .spaced ((Reads.operator o).mono fun _ => isApart_of_isDelimiter) (.last h.reads)

/-- Terms with operators between them are read as a chain. -/
theorem ReadsAs.chain {os : List Operator} {t : Text} {n : Node}
    (hfirst : ReadsAs filename .term t fun m => Node.equal m n = true)
    (h : ReadsNodes filename .term id ts ns) (hlength : ts.length = os.length) :
    ReadsAs filename .chain (chainText os t ts) fun m => Chain.Equal m (n :: ns) os := by
  -- the chain after an operator starts with the next term
  induction os generalizing t n ts ns with
  | nil =>
      obtain rfl := List.length_eq_zero_iff.1 hlength
      cases h
      rw [chainText_nil]
      have hlast : Reads filename isDelimiter (.sub .moreChain) [] fun m => Chain.Equal m [] [] :=
        .node (by decide) .lastTerm .nil fun _ _ _ => ⟨.nil, rfl⟩
      refine ⟨hfirst.begins.append _, .node (by decide) .chain
        (.cons hfirst.reads (.last hlast) fun _ hrest => hrest) ?_⟩
      rintro _ ⟨_, ⟨_, _⟩, _⟩ ⟨hterm, hterms, hoperators⟩
      exact ⟨.cons hterm hterms, hoperators⟩
  | cons o os ih =>
      cases h with
      | nil => exact absurd hlength (Nat.zero_ne_add_one _)
      | @cons u k ts ns hnext hlater =>
          have hchain := ih hnext hlater (Nat.succ.inj hlength)
          have hmore : Reads filename isDelimiter (.sub .moreChain)
              (' ' :: (o.sign.toList ++ ' ' :: chainText os u ts))
              fun m => Chain.Equal m (k :: ns) (o :: os) := by
            refine .node (by decide) .nextTerms (.blank (.operand o hchain)) ?_
            rintro _ ⟨_, _, _⟩ ⟨rfl, hterms, rfl⟩
            exact ⟨hterms, rfl⟩
          rw [chainText_cons]
          refine ⟨hfirst.begins.append _, .node (by decide) .chain
            (.cons hfirst.reads (.last hmore) fun _ _ => Text.opens_cons.2 (by decide)) ?_⟩
          rintro _ ⟨_, ⟨_, _⟩, _⟩ ⟨hterm, hterms, hoperators⟩
          exact ⟨.cons hterm hterms, hoperators⟩

/-- A text that is read as a term, and as the value of a body if it is no call. -/
structure ReadsAsTerm (filename : Option String) (text : Text) (n : Node) : Prop where
  term : ReadsAs filename .term text fun m => Node.equal m n = true
  trailing : n.isCall = false → ∀ span, ReadsAs filename .trailing text
    fun m => Node.equal m (.expr span (.nodes [n]) (.operators [])) = true

/-- A text that is read as an expression, and as the value of a body if it is no lone call. -/
structure ReadsAsExpression (filename : Option String) (text : Text) (n : Node) : Prop where
  expression : ReadsAs filename .expression text fun m => Node.equal m n = true
  trailing : n.isLoneCall = false → ReadsAs filename .trailing text
    fun m => Node.equal m n = true

theorem equal_single {m n : Node} {span' : Option Span} (h : m.equal n = true) :
    Node.equal ((Chain.single m).node span') (.expr span (.nodes [n]) (.operators [])) = true :=
  Chain.Equal.node ⟨.cons h .nil, rfl⟩

theorem ReadsAsTerm.call (hname : IsName name) (h : ReadsNodes filename .expression id ts ns) :
    ReadsAsTerm filename (name.toList ++ Spruce.parenthesised ts)
      (.call span (.text name) (.nodes ns)) := by
  have hcall : ReadsAs filename .call _ fun m =>
      Node.equal m (.call span (.text name) (.nodes ns)) = true := .call hname h
  refine ⟨⟨hcall.begins, .node (by decide) .callTerm (.last hcall.reads) fun _ _ hms => hms⟩, ?_⟩
  -- nothing is asked of a call as the value of a body
  exact fun hno => absurd hno Bool.true_eq_false.mp

theorem ReadsAsTerm.identifier (hname : IsName name) :
    ReadsAsTerm filename name.toList (.identifier span (.text name)) := by
  have hreference : ReadsAs filename .reference _ fun m =>
      Node.equal m (.identifier span (.text name)) = true := .reference hname
  refine ⟨⟨hreference.begins, .node (by decide) .referenceTerm (.last hreference.reads)
    fun _ _ hms => hms⟩, fun _ _ => ⟨hreference.begins, ?_⟩⟩
  exact .node (by decide) .referenceTrailing (.last hreference.reads) fun _ _ hms =>
    equal_single hms

theorem ReadsAsTerm.number {sign integer : String} {fraction exponent : Option String}
    (hsign : sign = "" ∨ sign = "+" ∨ sign = "-")
    (h : IsNumeral integer.toList (fraction.map String.toList) (exponent.map String.toList)) :
    ReadsAsTerm filename (numberText (.text sign) (.text integer) (.optionalText fraction)
      (.optionalText exponent)) (.number span (.text sign) (.text integer)
        (.optionalText fraction) (.optionalText exponent)) := by
  have hnumber : ReadsAs filename .number _ fun m => Node.equal m (.number span (.text sign)
      (.text integer) (.optionalText fraction) (.optionalText exponent)) = true :=
    .number hsign h
  refine ⟨⟨hnumber.begins, .node (by decide) .numberTerm (.last hnumber.reads)
    fun _ _ hms => hms⟩, fun _ _ => ⟨hnumber.begins, ?_⟩⟩
  exact .node (by decide) .numberTrailing (.last hnumber.reads) fun _ _ hms => equal_single hms

/-- An expression in parentheses is read as a term. -/
theorem ReadsAsExpression.parenthesised {text : Text} {n : Node}
    (h : ReadsAsExpression filename text n) :
    ReadsAsTerm filename (Spruce.parenthesised [text]) n := by
  have hbegins : Text.Begins isStart (Spruce.parenthesised [text]) :=
    Text.begins_cons (by decide) _
  have hinner := h.expression.parenthesised
  refine ⟨⟨hbegins, .node (by decide) .parenthesisedTerm hinner fun _ _ hms => hms⟩,
    fun _ _ => ⟨hbegins, ?_⟩⟩
  exact .node (by decide) .parenthesisedTrailing hinner fun _ _ hms => equal_single hms

/-- Terms with operators between them are read as an expression. -/
theorem ReadsAsExpression.expr {os : List Operator} {t : Text} {n : Node}
    (hfirst : ReadsAsTerm filename t n) (h : List.Forall₂ (ReadsAsTerm filename) ts ns)
    (hlength : ts.length = os.length) :
    ReadsAsExpression filename (chainText os t ts)
      (.expr span (.nodes (n :: ns)) (.operators os)) := by
  have hterms : ReadsNodes filename .term id ts ns := h.imp fun _ _ hterm => hterm.term
  have hchain := ReadsAs.chain hfirst.term hterms hlength
  refine ⟨⟨hchain.begins, .node (by decide) .expression (.last hchain.reads)
    fun _ _ hms => hms.node⟩, fun hcall => ?_⟩
  -- a lone term that is no call gives a value by a rule of its own
  cases os with
  | nil =>
      obtain rfl := List.length_eq_zero_iff.1 hlength
      cases h
      rw [chainText_nil, List.append_nil]
      exact hfirst.trailing hcall span
  | cons o os =>
      cases hterms with
      | nil => exact absurd hlength (Nat.zero_ne_add_one _)
      | @cons u k ts ns hnext hlater =>
          have hrest := ReadsAs.chain hnext hlater (Nat.succ.inj hlength)
          rw [chainText_cons]
          refine ⟨hfirst.term.begins.append _, .node (by decide) .chainTrailing
            (.spaced hfirst.term.reads (.operand o hrest)) ?_⟩
          rintro _ ⟨_, _, _, _⟩ ⟨hterm, rfl, hterms, rfl⟩
          exact Chain.Equal.node ⟨.cons hterm hterms, rfl⟩

end

end Spruce
