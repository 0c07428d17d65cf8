import Spruce.Grammar.Derivation

set_option autoImplicit false

/-!
# Reading tokens

Tokens are read from left to right while every derivation that can still come of
them is kept. A reading is a pending derivation that has nothing left to decide
before the next token: it is complete, or it awaits a token of one kind.

Before each token every rule is followed that can be. This comes to an end as a
nonterminal has a rank above that of whatever may stand first in its rules, and
parts that may be empty are counted along with what is after them
(`rank_parts`).

Main definitions: `Reading`; `Pending.readings`, which follows rules;
`Readings.next`, which takes one token; and `Readings.feed`, which takes many.
-/

namespace Spruce

/-! ## Ranks -/

/-- A nonterminal that derives the empty sequence. -/
def Nonterminal.isNullable : Nonterminal → Bool
  | .program | .items | .moreItems | .optionalNewline | .typeParameters | .optionalNames
  | .moreNames | .moreTypeOptions | .typeArguments | .moreTypeExprs | .body | .bodyLines
  | .moreCaseOptions | .bindings | .armBody | .armLines | .moreArmLines | .moreChain
  | .callArguments | .moreArguments => true
  | _ => false

/-- More than the rank of whatever may stand first in the rules of a nonterminal. -/
def Nonterminal.rank : Nonterminal → Nat
  | .moreItems | .optionalNewline | .typeDecl | .typeParameters | .moreNames | .typeArguments
  | .moreTypeExprs | .caseExpr | .bindings | .moreArmLines | .moreArguments | .sign | .operator
  | .name => 1
  | .functionDecl | .names | .typeOption | .typeExpr | .target | .pattern | .moreChain | .call
  | .reference | .number => 2
  | .optionalNames | .typeOptions | .typeExprs | .assignment | .caseOption | .term => 3
  | .item | .moreTypeOptions | .statement | .trailing | .caseOptions | .chain => 4
  | .items | .bodyLines | .moreCaseOptions | .armLines | .expression => 5
  | .body | .assignedValue | .arm | .armBody | .arguments => 6
  | .program | .loneExpression | .callArguments => 7

/-- The number of rules that can be followed, one below the other, before a token
is needed. -/
def leadRank : List Symbol → Nat
  | [] => 0
  | .tok _ :: _ => 0
  | .sub x :: ss => x.rank + if x.isNullable then leadRank ss else 0

/-- Symbols that derive the empty sequence. -/
def allNullable : List Symbol → Bool
  | [] => true
  | .tok _ :: _ => false
  | .sub x :: ss => x.isNullable && allNullable ss

theorem leadRank_append (ss ts : List Symbol) :
    leadRank (ss ++ ts) = leadRank ss + if allNullable ss then leadRank ts else 0 := by
  induction ss with
  | nil => simp [leadRank, allNullable]
  | cons s ss ih =>
      cases s with
      | tok t => simp [leadRank, allNullable]
      | sub x =>
          cases h : x.isNullable <;> simp [leadRank, allNullable, h, ih, Nat.add_assoc]

/-- What stands first in a rule has a lower rank, and only a nonterminal that is
known to derive the empty sequence has a rule of such parts. -/
theorem rank_parts {x : Nonterminal} (rule : Rule x) :
    leadRank rule.parts < x.rank ∧ (allNullable rule.parts → x.isNullable) := by
  cases rule <;> decide

theorem leadRank_follow_lt {x : Nonterminal} (rule : Rule x) (later : List Symbol) :
    leadRank (rule.parts ++ later) < leadRank (.sub x :: later) := by
  obtain ⟨hrank, hnullable⟩ := rank_parts rule
  rw [leadRank_append]
  simp only [leadRank]
  cases hparts : allNullable rule.parts with
  | false =>
      simp only [Bool.false_eq_true, if_false]
      omega
  | true =>
      simp only [hnullable hparts, if_true]
      omega

/-! ## Readings -/

/-- A pending derivation that can do nothing but wait: no symbol is left, or the
next is a token. -/
inductive Reading (goal : Symbol) where
  | complete (pending : Pending goal [])
  | awaiting (t : Terminal) (later : List Symbol) (pending : Pending goal (.tok t :: later))

/-- The readings that a pending derivation leads to by following rules. -/
def Pending.readings {goal : Symbol} :
    (later : List Symbol) → Pending goal later → List (Reading goal)
  | [], p => [.complete p]
  | .tok t :: later, p => [.awaiting t later p]
  | .sub x :: later, p => x.rules.flatMap fun rule => (p.follow rule).readings _
termination_by later => leadRank later
decreasing_by exact leadRank_follow_lt rule later

namespace Reading

variable {goal : Symbol}

/-- The readings after one more token. -/
def next (token : Token) : Reading goal → List (Reading goal)
  | complete _ => []
  | awaiting t later p =>
      if h : token.kind = t then (p.shift token h).readings later else []

/-- The reading awaits a token of the given kind. -/
def awaits (t : Terminal) : Reading goal → Bool
  | complete _ => false
  | awaiting t' _ _ => t' = t

/-- The derivation that has been read, if none of it is left to come. -/
def derivation? : Reading goal → Option (Derivation goal)
  | complete p => some (p.finish .nil)
  | awaiting _ _ _ => none

end Reading

/-! ## Reading a sequence of tokens -/

/-- A token that no reading goes on with, and the terminals awaited there. -/
structure Obstacle where
  token : Token
  expected : List Terminal
  deriving DecidableEq, Repr

/-- All the readings of one sequence of tokens. -/
abbrev Readings (goal : Symbol) := List (Reading goal)

namespace Readings

variable {goal : Symbol}

/-- The readings of no token at all. -/
def initial (goal : Symbol) : Readings goal := Pending.start.readings [goal]

/-- The readings after one more token. -/
def next (readings : Readings goal) (token : Token) : Readings goal :=
  readings.flatMap fun reading => reading.next token

/-- The terminals that some reading awaits, in the order of their descriptions. -/
def awaited (readings : Readings goal) : List Terminal :=
  Terminal.all.filter fun t => readings.any fun reading => reading.awaits t

/-- The readings after some tokens, or the first token that none goes on with. -/
def feed : Readings goal → List Token → Except Obstacle (Readings goal)
  | readings, [] => .ok readings
  | readings, token :: tokens =>
      match readings.next token with
      | [] => .error ⟨token, readings.awaited⟩
      | readings' => feed readings' tokens

/-- The first of the derivations that have been read completely. -/
def derivation? (readings : Readings goal) : Option (Derivation goal) :=
  readings.findSome? Reading.derivation?

end Readings

end Spruce
