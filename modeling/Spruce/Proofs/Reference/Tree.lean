import Spruce.Grammar.Meaning
import Spruce.Proofs.Reference.Grammar

set_option autoImplicit false

/-!
# Trees of phrases

What the reference makes of a phrase, from the innermost constructs outwards. A construct is given
the children that its parts leave: a token of a kept terminal leaves itself, any other token
nothing, and a marked part that is left out leaves the trace that it is absent. An inlined
construct leaves the children of its parts; every other construct makes one child of them, which
records the stretch of text from its first token to its last.

Nothing here depends on the order in which tokens are read. Signs that do not touch their digits
are not refused here; they are listed by `Phrase.detachedSigns`.

Main definitions: `transform`, the child that each construct makes, and
`Phrase.children`.
-/

namespace Spruce

/-! ## Children -/

/-- A terminal whose tokens are kept as children. -/
def Terminal.isKept : Terminal → Bool
  | newline | arrow | leftParen | rightParen | leftBrace | rightBrace | comma | colon | equal =>
      false
  | _ => true

/-- The stretch of text from the first of some tokens to the last. -/
def tokensExtent : List Token → Option Extent
  | [] => none
  | t :: ts => some ⟨t.start, ((t :: ts).getLast (List.cons_ne_nil t ts)).stop⟩

/-- The span of some tokens. -/
def tokensSpan (filename : Option String) (tokens : List Token) : Option Span :=
  (tokensExtent tokens).map (Span.ofExtent filename)

/-- A value, with the empty tuple in the place of one that counts as nothing. -/
def Value.orEmpty (v : Value) : Value := if v.isEmpty then .tuple [] else v

mutual

/-- The elements at the even places of a list, from the first on. -/
def evens {α : Type} : List α → List α
  | [] => []
  | a :: as => a :: odds as

/-- The elements at the odd places of a list, from the second on. -/
def odds {α : Type} : List α → List α
  | [] => []
  | _ :: as => evens as

end

/-- An expression at the end of some values, if there is one, and the values before it. -/
def splitTrailing (vs : List Value) : List Value × Value :=
  match vs.getLast? with
  | some (.node n) => if n.isExpr then (vs.dropLast, .node n) else (vs, .absent)
  | _ => (vs, .absent)

/-- The operator with the given sign. -/
def Operator.ofSign? (sign : String) : Option Operator := all.find? fun o => o.sign = sign

namespace Reference

/-- What a part of a construct leaves. -/
inductive Child where
  | token (t : Token)
  | value (v : Value)

namespace Child

/-- The value that a child is, if it is one. -/
def value? : Child → Option Value
  | token _ => none
  | value v => some v

/-- The values that some children are, if all of them are values. -/
def values? (children : List Child) : Option (List Value) := children.mapM value?

end Child

/-- The children that two parts leave, one after the other. -/
def joined (left right : Option (List Child)) : Option (List Child) := do
  pure ((← left) ++ (← right))

/-! ## Constructs -/

/-- A construct that leaves the children of its parts. -/
def Construct.isInlined : Construct → Bool
  | item | statement | target | valued | armBody | term => true
  | _ => false

/-- The child that a construct makes of the children of its parts. -/
def transform (span : Option Span) : Construct → List Child → Option Child
  | .program, items => do
      pure (.value (.node (.program span (.tuple (← Child.values? items)))))
  | .loneExpression, [expression] => expression
  | .functionDeclaration, [.value name, .value parameters, .value block] =>
      some (.value (.node (.functionDecl span name parameters.orEmpty block)))
  | .typeDeclaration, .token _ :: .value name :: .value parameters :: options => do
      let options ← Child.values? options
      pure (.value (.node (.typeDecl span name parameters.orEmpty (.tuple options))))
  | .typeParameters, [.value names] => some (.value names.orEmpty)
  | .typeOption, [.value constructor, .value arguments] =>
      some (.value (.node (.typeOption span constructor arguments.orEmpty)))
  | .typeExpression, [.value name, .value arguments] =>
      some (.value (.node (.typeExpr span name arguments.orEmpty)))
  | .typeExpressions, children | .names, children | .arguments, children => do
      pure (.value (.tuple (← Child.values? children)))
  | .assignment, [.value target, .value value] =>
      some (.value (.node (.assign span target value)))
  | .bind, [.value name] => some (.value (.node (.target span (.targetKind .bind) name)))
  | .mutableBind, [.token _, .value name] =>
      some (.value (.node (.target span (.targetKind .mutableBind) name)))
  | .update, [.value name] => some (.value (.node (.target span (.targetKind .update) name)))
  | .body, children | .inlineBody, children => do
      let lines ← Child.values? children
      let (statements, trailing) := splitTrailing (lines.filter fun v => !v.isAbsent)
      pure (.value (.node (.body span (.tuple statements) trailing)))
  | .caseExpression, .token _ :: .value scrutinee :: options => do
      let options ← Child.values? options
      pure (.value (.node (.caseOf span scrutinee (.tuple options))))
  | .caseOption, [.value pattern, .value value] =>
      some (.value (.node (.caseOption span pattern value)))
  | .casePattern, [.value name, .value bindings] =>
      some (.value (.node (.casePattern span name bindings.orEmpty)))
  | .expression, children | .trailingExpression, children => do
      let vs ← Child.values? children
      pure (.value (.node (.expr span (.tuple (evens vs)) (.tuple (odds vs)))))
  | .functionCall, [.value callee, .value arguments] =>
      some (.value (.node (.call span callee arguments.orEmpty)))
  | .reference, [.value name] => some (.value (.node (.identifier span name)))
  | .number, [.value .absent, .token digits] => some (.value (.node (numberNode span [] digits)))
  | .number, [.token sign, .token digits] =>
      some (.value (.node (numberNode span sign.text digits)))
  | .sign, [.token sign] => some (.token sign)
  | .operator, [.token sign] => do pure (.value (.operator (← Operator.ofSign? sign.name)))
  | .name, [.token name] => some (.value (.text name.name))
  | _, _ => none

/-! ## Phrases -/

namespace Phrase

/-- The children that a phrase leaves. -/
def children (filename : Option String) : {p : Pattern} → Phrase p → Option (List Child)
  | _, .token kind t _ => some (if kind.isKept then [.token t] else [])
  | _, .construct c phrase => do
      let below ← phrase.children filename
      if c.isInlined then pure below
      else pure [← transform (tokensSpan filename phrase.tokens) c below]
  | _, .both first second => joined (first.children filename) (second.children filename)
  | _, .left phrase => phrase.children filename
  | _, .right phrase => phrase.children filename
  | .optional marked _, .absent => some (if marked then [.value .absent] else [])
  | _, .present phrase => phrase.children filename
  | _, .done => some []
  | _, .more first later => joined (first.children filename) (later.children filename)

/-- The tree of a phrase, if it leaves a node and nothing else. -/
def tree {p : Pattern} (filename : Option String) (phrase : Phrase p) : Option Node :=
  match phrase.children filename with
  | some [.value (.node n)] => some n
  | _ => none

end Phrase

end Reference

end Spruce
