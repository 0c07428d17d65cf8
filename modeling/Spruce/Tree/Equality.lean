import Spruce.Tree.Basic

set_option autoImplicit false

/-!
# Equality of trees

Two trees are equal when they have the same structure, wherever their text
stands: spans take no part. Numbers are equal by what they count for, however they
are held, and a truth value counts for zero or one.

Main definitions: `Node.equal` and `Value.equal`.
-/

namespace Spruce

/-- The whole number that a truth value counts for. -/
def truthNumber (b : Bool) : Int := if b then 1 else 0

/-- The whole number that a value counts for, if it is held as one. -/
def Value.wholeNumber? : Value → Option Int
  | .truth b => some (truthNumber b)
  | .whole n => some n
  | _ => none

/-- Equality of values that are no texts, vocabulary members, sequences, fragments
or nodes. -/
def Value.equalNumber : Value → Value → Bool
  | .real x, .real y => x.equal y
  | .real x, w => w.wholeNumber?.any x.equalInteger
  | v, .real y => v.wholeNumber?.any y.equalInteger
  | v, w => v.wholeNumber?.isSome && v.wholeNumber? = w.wholeNumber?

mutual

/-- Equality of nodes, spans left out. -/
def Node.equal : Node → Node → Bool
  | ⟨type, _, fields⟩, ⟨type', _, fields'⟩ => type = type' && equalAll fields fields'
termination_by structural n => n

/-- Equality of values. -/
def Value.equal : Value → Value → Bool
  | .absent, .absent => true
  | .text s, .text s' => s = s'
  | .operator o, .operator o' => o = o'
  | .operation o, .operation o' => o = o'
  | .targetKind k, .targetKind k' => k = k'
  | .sequence kind items, .sequence kind' items' => kind = kind' && equalAll items items'
  | .fragment rule parts, .fragment rule' parts' => rule = rule' && equalAll parts parts'
  | .node n, .node n' => n.equal n'
  | v, w => v.equalNumber w
termination_by structural v => v

/-- Equality of the values of two sequences. -/
def equalAll : List Value → List Value → Bool
  | [], [] => true
  | v :: vs, v' :: vs' => v.equal v' && equalAll vs vs'
  | _, _ => false
termination_by structural vs => vs

end

end Spruce
