import Spruce.Diagnostic.Fault
import Spruce.Tree.NumberLiteral

set_option autoImplicit false

/-!
# Printing trees as programs

A printed program has one canonical layout: one item or statement a line, bodies
indented by two blanks more than what they are part of, a blank on either side
of every operator, and a comma and a blank between arguments.

A tree made by hand may have no printed form, and then the fault is the first
that is met while printing; the arms of a case construct are printed before its
scrutinee. Surplus terms or operators of an expression are left out. Names of
functions, types and targets are shown whatever they are, but where texts are put
together to one line each has to be a text (`Piece`).

Main definitions: `Value.printProgram`, and a printer for each kind of node.
-/

namespace Spruce

/-! ## Pieces of lines -/

/-- What is put into a line: a text, or a value that is none. -/
inductive Piece where
  | text (t : Text)
  | other (v : Value)

namespace Piece

/-- A value as a piece of a line. -/
def ofValue : Value → Piece
  | .text s => text s.toList
  | v => other v

/-- A piece where any value can be shown. -/
def display : Piece → Text
  | text t => t
  | other v => v.display

/-- A piece where only a text will do. -/
def toText : Piece → Except Fault Text
  | text t => .ok t
  | other v => .error (.misplaced "text" v)

/-- The value that a piece is. -/
def value : Piece → Value
  | text t => .text (String.ofList t)
  | other v => v

end Piece

/-- A value that has to be a text. -/
def Value.toText (v : Value) : Except Fault Text := (Piece.ofValue v).toText

/-- The elements of a sequence that have to be texts. -/
def Value.toTexts (v : Value) : Except Fault (List Text) := do
  (← v.toElements).mapM Value.toText

/-- Pieces with a blank between each two. -/
def spaced (pieces : List Piece) : Except Fault Text := do
  pure ([' '].intercalate (← pieces.mapM Piece.toText))

/-! ## Layout -/

/-- One more level of indentation. -/
def deeper (indent : Text) : Text := indent ++ [' ', ' ']

/-- A list of texts in parentheses. -/
def parenthesised (items : List Text) : Text := '(' :: commaSeparated items ++ [')']

/-- Texts of which each stands on lines of its own. -/
def linesText (lines : List Text) : Text := lines.flatMap fun line => line ++ ['\n']

/-- Lines in braces; the closing brace starts a line at `indent`. -/
def bracedLines (indent : Text) (lines : List Text) : Text :=
  '{' :: '\n' :: linesText lines ++ indent ++ ['}']

/-- A case construct whose arms are printed as whole lines. -/
def caseText (indent scrutinee : Text) (arms : List Text) : Text :=
  "case ".toList ++ scrutinee ++ ' ' :: bracedLines indent arms

/-- The left-hand side of an assignment to a name. -/
def assignmentText (kind : TargetKind) (name : Text) : Text :=
  match kind with
  | .bind => name ++ [' ', '=']
  | .mutableBind => "mut ".toList ++ name ++ [' ', '=']
  | .update => name ++ [':']

/-! ## Operators, targets and patterns -/

/-- A value in the place of an operator. -/
def Value.operatorPiece (v : Value) : Except Fault Piece :=
  match v with
  | .operator o => .ok (.text o.sign.toList)
  | .operation o => .ok (.other (.whole o.number))
  | .targetKind k => .ok (.other (.whole k.number))
  | v => .error (.misplaced "operator" v)

/-- The left-hand side of an assignment. -/
def Value.printTarget (v : Value) : Except Fault Text :=
  match v with
  | .node (.target _ (.targetKind kind) name) => .ok (assignmentText kind name.display)
  | v => .error (.misplaced "target" v)

/-- The left-hand side of a case arm. -/
def Value.printPattern (v : Value) : Except Fault Text :=
  match v with
  | .node (.casePattern _ name bindings) =>
      if bindings.isEmpty then .ok name.display
      else do
        let names ← bindings.toTexts
        pure ((← name.toText) ++ parenthesised names)
  | v => .error (.misplaced "case pattern" v)

/-! ## Type expressions -/

mutual

/-- A type expression. -/
def Value.printTypeExpr : Value → Except Fault Text
  | .node n => n.printTypeExpr
  | v => throw (.misplaced "type expression" v)
termination_by structural v => v

/-- A node that is a type expression. -/
def Node.printTypeExpr : Node → Except Fault Text
  | .typeExpr _ name arguments => do
      let tail ← arguments.printTypeArguments
      pure ((← name.toText) ++ tail)
  | n => throw (.misplaced "type expression" (.node n))
termination_by structural n => n

/-- Some type expressions. -/
def printTypeExprs : List Value → Except Fault (List Text)
  | [] => pure []
  | v :: vs => do
      let text ← v.printTypeExpr
      pure (text :: (← printTypeExprs vs))
termination_by structural vs => vs

/-- Type arguments in parentheses; nothing for none. -/
def Value.printTypeArguments : Value → Except Fault Text
  | .sequence _ [] => pure []
  | .sequence _ items => do pure (parenthesised (← printTypeExprs items))
  | v => if v.isEmpty then pure [] else throw (.misplaced "type argument" v)
termination_by structural v => v

end

/-- One constructor of a data type. -/
def Value.printTypeOption (v : Value) : Except Fault Text :=
  match v with
  | .node (.typeOption _ constructor arguments) => do
      let tail ← arguments.printTypeArguments
      pure ((← constructor.toText) ++ tail)
  | v => throw (.misplaced "type option" v)

/-! ## Expressions -/

mutual

/-- A term of an expression; an expression as a term stands in parentheses. -/
def Node.printTerm : Node → Except Fault Piece
  | .call _ callee arguments => do
      pure (.text (callee.display ++ parenthesised (← arguments.printArguments)))
  | .identifier _ name => pure (.ofValue name)
  | .number _ sign integer fraction exponent =>
      pure (.text (numberText sign integer fraction exponent))
  | .expr _ terms operators => do
      pure (.text (parenthesised [← terms.printChain operators]))
  | n => throw (.notATerm (.node n))
termination_by structural n => n

/-- A value that stands for a term. -/
def Value.printTerm : Value → Except Fault Piece
  | .node n => n.printTerm
  | v => throw (.notATerm v)
termination_by structural v => v

/-- An expression. -/
def Node.printExpr : Node → Except Fault Text
  | .expr _ terms operators => terms.printChain operators
  | n => throw (.misplaced "expression" (.node n))
termination_by structural n => n

/-- A value that stands for an expression. -/
def Value.printExpr : Value → Except Fault Text
  | .node n => n.printExpr
  | v => throw (.misplaced "expression" v)
termination_by structural v => v

/-- Some expressions. -/
def printExprs : List Value → Except Fault (List Text)
  | [] => pure []
  | v :: vs => do
      let text ← v.printExpr
      pure (text :: (← printExprs vs))
termination_by structural vs => vs

/-- The arguments of a call. -/
def Value.printArguments : Value → Except Fault (List Text)
  | .sequence _ items => printExprs items
  | .text s => refuseCharacters (.misplaced "expression") s
  | v => throw (.misplaced "sequence" v)
termination_by structural v => v

/-- The terms of a sequence with the operators between them. -/
def Value.printChain : Value → (operators : Value) → Except Fault Text
  | .sequence kind items, operators => printTerms kind items operators
  | v, _ => do
      match ← v.toElements with
      | [] => throw (.noFirstTerm v)
      | c :: _ => throw (.notATerm c)
termination_by structural v => v

/-- Terms with the operators between them; the first term has to be there. -/
def printTerms (kind : SequenceKind) : List Value → (operators : Value) → Except Fault Text
  | [], _ => throw (.noFirstTerm (.sequence kind []))
  | v :: vs, operators => do
      let first ← v.printTerm
      spaced (first :: (← printOperands (← operators.toElements) vs))
termination_by structural vs => vs

/-- Operators, each with the term after it. -/
def printOperands : (operators : List Value) → List Value → Except Fault (List Piece)
  | o :: os, v :: vs => do
      let sign ← o.operatorPiece
      let term ← v.printTerm
      pure (sign :: term :: (← printOperands os vs))
  | _, _ => pure []
termination_by structural _ vs => vs

end

/-! ## Case constructs, statements and bodies -/

mutual

/-- What has a value: a case construct, an expression or another term. The first line
is not indented. -/
def Node.printValued (indent : Text) : Node → Except Fault Piece
  | .caseOf _ scrutinee options => do
      let arms ← options.printArms (deeper indent)
      pure (.text (caseText indent (← scrutinee.printExpr) arms))
  | .expr _ terms operators => do pure (.text (← terms.printChain operators))
  | n => n.printTerm
termination_by structural n => n

/-- A value that stands for something that has a value. -/
def Value.printValued (indent : Text) : Value → Except Fault Piece
  | .node n => n.printValued indent
  | v => v.printTerm
termination_by structural v => v

/-- The arms of a case construct, each indented. -/
def Value.printArms (indent : Text) : Value → Except Fault (List Text)
  | .sequence _ items => printArmLines indent items
  | .text s => refuseCharacters (.misplaced "case option") s
  | v => throw (.misplaced "sequence" v)
termination_by structural v => v

/-- Some arms, each indented. -/
def printArmLines (indent : Text) : List Value → Except Fault (List Text)
  | [] => pure []
  | v :: vs => do
      let text ← v.printArm indent
      pure ((indent ++ text) :: (← printArmLines indent vs))
termination_by structural vs => vs

/-- One arm of a case construct. -/
def Value.printArm (indent : Text) : Value → Except Fault Text
  | .node (.caseOption _ pattern value) => do
      let left ← pattern.printPattern
      pure (left ++ " -> ".toList ++ (← value.printArmValue indent))
  | v => throw (.misplaced "case option" v)
termination_by structural v => v

/-- What an arm leads to: an expression, or a body in braces. -/
def Value.printArmValue (indent : Text) : Value → Except Fault Text
  | .node n =>
      if n.isBody then do pure (bracedLines indent (← n.printBodyLines (deeper indent)))
      else n.printExpr
  | v => v.printExpr
termination_by structural v => v

/-- The lines of a body: its statements, then what gives it its value. -/
def Node.printBodyLines (indent : Text) : Node → Except Fault (List Text)
  | .body _ statements trailing => do
      let lines ← statements.printStatements indent
      if trailing.isAbsent then pure lines
      else do
        let last ← trailing.printValued indent
        pure (lines ++ [indent ++ (← last.toText)])
  | n => throw (.misplaced "body" (.node n))
termination_by structural n => n

/-- Some statements. -/
def Value.printStatements (indent : Text) : Value → Except Fault (List Text)
  | .sequence _ items => printStatementLines indent items
  | .text s => refuseCharacters .notAStatement s
  | v => throw (.misplaced "sequence" v)
termination_by structural v => v

/-- Some statements, each indented. -/
def printStatementLines (indent : Text) : List Value → Except Fault (List Text)
  | [] => pure []
  | v :: vs => do
      let text ← v.printStatement indent
      pure (text :: (← printStatementLines indent vs))
termination_by structural vs => vs

/-- A statement, indented. -/
def Value.printStatement (indent : Text) : Value → Except Fault Text
  | .node n => n.printStatement indent
  | v => throw (.notAStatement v)
termination_by structural v => v

/-- A node that is a statement, indented. -/
def Node.printStatement (indent : Text) : Node → Except Fault Text
  | .assign _ destination value => do
      let left ← destination.printTarget
      pure (indent ++ left ++ ' ' :: (← value.printValued indent).display)
  | .call _ callee arguments => do
      pure (indent ++ callee.display ++ parenthesised (← arguments.printArguments))
  | .caseOf _ scrutinee options => do
      let arms ← options.printArms (deeper indent)
      pure (indent ++ caseText indent (← scrutinee.printExpr) arms)
  | n => throw (.notAStatement (.node n))
termination_by structural n => n

end

/-- The lines of a value that stands for a body. -/
def Value.printBodyLines (indent : Text) (v : Value) : Except Fault (List Text) :=
  match v with
  | .node n => n.printBodyLines indent
  | v => throw (.misplaced "body" v)

/-- A body, every line of it ended. -/
def Value.printBody (indent : Text) (v : Value) : Except Fault Text := do
  pure (linesText (← v.printBodyLines indent))

/-- A case construct. -/
def Value.printCase (indent : Text) (v : Value) : Except Fault Text :=
  match v with
  | .node (.caseOf span scrutinee options) => do
      (← (Node.caseOf span scrutinee options).printValued indent).toText
  | v => throw (.misplaced "case construct" v)

/-! ## Items and programs -/

/-- The parameters of a type in parentheses; nothing for none. -/
def Value.printTypeParameters (v : Value) : Except Fault Text :=
  if v.isEmpty then pure [] else do pure (parenthesised (← v.toTexts))

/-- A top-level item, indented. -/
def Value.printItem (indent : Text) (v : Value) : Except Fault Text :=
  match v with
  | .node (.functionDecl _ name parameters block) => do
      let names ← parameters.toTexts
      let lines ← block.printBodyLines (deeper indent)
      pure (indent ++ name.display ++ parenthesised names ++ ' ' :: bracedLines indent lines)
  | .node (.typeDecl _ name parameters options) => do
      let names ← parameters.printTypeParameters
      let lines ← (← options.toElements).mapM Value.printTypeOption
      pure (indent ++ "type ".toList ++ name.display ++ names ++
        ' ' :: bracedLines indent (lines.map fun line => deeper indent ++ line))
  | .node (.assign span destination value) =>
      (Node.assign span destination value).printStatement indent
  | v => throw (.notATopLevelItem v)

/-- The items of a node: those of a program, or what a foreign node has under that
name. -/
def Node.items? : Node → Option Value
  | .program _ items => some items
  | ⟨.foreign _ names _, _, fields⟩ => (names.zip fields).lookup "items"
  | _ => none

/-- A whole program. -/
def Value.printProgram (v : Value) : Except Fault Text :=
  match v.node?.bind Node.items? with
  | some items => do pure (linesText (← (← items.toElements).mapM (Value.printItem [])))
  | none => throw (.misplaced "program" v)

/-- The printed form of a program. -/
def Node.printProgram (n : Node) : Except Fault Text := (Value.node n).printProgram

end Spruce
