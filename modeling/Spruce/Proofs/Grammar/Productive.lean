import Spruce.Grammar.Derivation

set_option autoImplicit false

/-!
# Every symbol derives something

No part of the grammar is useless: each nonterminal has a rule all of whose parts are simpler
(`height_parts`), so each symbol has a derivation (`Derivation.nonempty`). Hence whatever has been
decided of a derivation can be finished.
-/

namespace Spruce

namespace Nonterminal

/-- A rule that leads to tokens soonest. -/
def simplestRule : (x : Nonterminal) → Rule x
  | program => .program
  | items => .noItems
  | moreItems => .lastItem
  | loneExpression => .loneExpression
  | optionalNewline => .noNewline
  | item => .functionItem
  | functionDecl => .functionDecl
  | typeDecl => .typeDecl
  | typeParameters => .noTypeParameters
  | optionalNames => .noNames
  | names => .names
  | moreNames => .lastName
  | typeOptions => .typeOptions
  | moreTypeOptions => .lastTypeOption
  | typeOption => .typeOption
  | typeArguments => .noTypeArguments
  | typeExprs => .typeExprs
  | moreTypeExprs => .lastTypeExpr
  | typeExpr => .typeExpr
  | body => .body
  | bodyLines => .noLines
  | statement => .callStatement
  | assignment => .assignment
  | target => .bindTarget
  | assignedValue => .expressionValue
  | trailing => .numberTrailing
  | caseExpr => .caseExpr
  | caseOptions => .caseOptions
  | moreCaseOptions => .lastCaseOption
  | caseOption => .caseOption
  | pattern => .pattern
  | bindings => .noBindings
  | arm => .expressionArm
  | armBody => .armBody
  | armLines => .noArmLines
  | moreArmLines => .lastArmLine
  | expression => .expression
  | chain => .chain
  | moreChain => .lastTerm
  | term => .numberTerm
  | call => .call
  | callArguments => .noArguments
  | arguments => .arguments
  | moreArguments => .lastArgument
  | reference => .reference
  | number => .unsignedNumber
  | sign => .plusSign
  | operator => .addOperator
  | name => .identifierName

/-- The height of the tree that the simplest rules give. -/
def height : Nonterminal → Nat
  | items | moreItems | optionalNewline | typeParameters | optionalNames | moreNames
  | moreTypeOptions | typeArguments | moreTypeExprs | bodyLines | moreCaseOptions | bindings
  | armLines | moreArmLines | moreChain | callArguments | moreArguments | number | sign | operator
  | name => 1
  | program | names | typeOption | typeExpr | body | target | trailing | pattern | armBody | term
  | call | reference => 2
  | functionDecl | typeOptions | typeExprs | statement | chain => 3
  | item | typeDecl | expression => 4
  | loneExpression | assignedValue | arm | arguments => 5
  | assignment | caseOption => 6
  | caseOptions => 7
  | caseExpr => 8

end Nonterminal

/-- The height of the simplest tree of a symbol. -/
def Symbol.height : Symbol → Nat
  | .tok _ => 0
  | .sub x => x.height

/-- The parts of a simplest rule are simpler than what it is a rule of. -/
theorem height_parts (x : Nonterminal) :
    ∀ s ∈ x.simplestRule.parts, s.height < (Symbol.sub x).height := by
  cases x <;> decide

/-- Symbols that each have a derivation have derivations one after another. -/
theorem Derivations.nonempty_of {ss : List Symbol} (h : ∀ s ∈ ss, Nonempty (Derivation s)) :
    Nonempty (Derivations ss) := by
  induction ss with
  | nil => exact ⟨.nil⟩
  | cons s ss ih =>
      obtain ⟨first⟩ := h s List.mem_cons_self
      obtain ⟨later⟩ := ih fun s' hs' => h s' (List.mem_cons_of_mem _ hs')
      exact ⟨.cons first later⟩

/-- Every symbol has a derivation. -/
theorem Derivation.nonempty : (s : Symbol) → Nonempty (Derivation s)
  | .tok t => ⟨.token t ⟨t, [], .origin, 0⟩ rfl⟩
  | .sub x => by
      obtain ⟨parts⟩ := Derivations.nonempty_of fun s (_ : s ∈ x.simplestRule.parts) =>
        Derivation.nonempty s
      exact ⟨.node x.simplestRule parts⟩
termination_by s => s.height
decreasing_by exact height_parts x s ‹_›

/-- Symbols one after another have derivations. -/
theorem Derivations.nonempty (ss : List Symbol) : Nonempty (Derivations ss) :=
  nonempty_of fun s _ => Derivation.nonempty s

end Spruce
