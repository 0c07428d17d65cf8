set_option autoImplicit false

/-!
# Operators and assignment forms

The three small vocabularies that tree nodes draw on: the operators of the
language as they are written, the operations they stand for once an expression
has been grouped, and the forms that the left-hand side of an assignment takes.

Main definitions: `Operator`, `Operation`, `TargetKind`, and
`Operator.operation`, which is one to one (`operation_injective`).
-/

namespace Spruce

/-! ## Operators -/

/-- The binary operators. -/
inductive Operator where
  | add
  | subtract
  | multiply
  | divide
  | power
  | modulo
  | equal
  | notEqual
  | lessEqual
  | greaterEqual
  | less
  | greater
  deriving DecidableEq, Repr

namespace Operator

/-- How an operator is written. -/
def sign : Operator → String
  | add => "+"
  | subtract => "-"
  | multiply => "*"
  | divide => "/"
  | power => "^"
  | modulo => "%"
  | equal => "=="
  | notEqual => "!="
  | lessEqual => "<="
  | greaterEqual => ">="
  | less => "<"
  | greater => ">"

/-- The name of an operator in printed trees. -/
def label : Operator → String
  | add => "ADD"
  | subtract => "SUBTRACT"
  | multiply => "MULTIPLY"
  | divide => "DIVIDE"
  | power => "POWER"
  | modulo => "MODULO"
  | equal => "EQUAL"
  | notEqual => "NOT_EQUAL"
  | lessEqual => "LESS_EQUAL"
  | greaterEqual => "GREATER_EQUAL"
  | less => "LESS"
  | greater => "GREATER"

/-- Every operator. -/
def all : List Operator :=
  [add, subtract, multiply, divide, power, modulo, equal, notEqual, lessEqual, greaterEqual,
    less, greater]

/-- The operator with the given name. -/
def ofLabel? (label : String) : Option Operator := all.find? fun o => o.label = label

/-- Reading the name of an operator gives the operator. -/
theorem ofLabel?_label (o : Operator) : ofLabel? o.label = some o := by
  cases o <;> decide

end Operator

/-! ## Operations -/

/-- What an operator does to its two operands. -/
inductive Operation where
  | add
  | subtract
  | multiply
  | divide
  | power
  | modulo
  | compareEq
  | compareNe
  | compareLe
  | compareGe
  | compareLt
  | compareGt
  deriving DecidableEq, Repr

namespace Operation

/-- The name of an operation in printed trees. -/
def label : Operation → String
  | add => "ADD"
  | subtract => "SUBTRACT"
  | multiply => "MULTIPLY"
  | divide => "DIVIDE"
  | power => "POWER"
  | modulo => "MODULO"
  | compareEq => "COMPARE_EQ"
  | compareNe => "COMPARE_NE"
  | compareLe => "COMPARE_LE"
  | compareGe => "COMPARE_GE"
  | compareLt => "COMPARE_LT"
  | compareGt => "COMPARE_GT"

/-- The number of an operation in printed trees. -/
def number : Operation → Nat
  | add => 1
  | subtract => 2
  | multiply => 3
  | divide => 4
  | power => 5
  | modulo => 6
  | compareEq => 7
  | compareNe => 8
  | compareLe => 9
  | compareGe => 10
  | compareLt => 11
  | compareGt => 12

/-- Every operation. -/
def all : List Operation :=
  [add, subtract, multiply, divide, power, modulo, compareEq, compareNe, compareLe, compareGe,
    compareLt, compareGt]

/-- The operation with the given name. -/
def ofLabel? (label : String) : Option Operation := all.find? fun o => o.label = label

/-- Reading the name of an operation gives the operation. -/
theorem ofLabel?_label (o : Operation) : ofLabel? o.label = some o := by
  cases o <;> decide

end Operation

/-- The operation an operator stands for. -/
def Operator.operation : Operator → Operation
  | .add => .add
  | .subtract => .subtract
  | .multiply => .multiply
  | .divide => .divide
  | .power => .power
  | .modulo => .modulo
  | .equal => .compareEq
  | .notEqual => .compareNe
  | .lessEqual => .compareLe
  | .greaterEqual => .compareGe
  | .less => .compareLt
  | .greater => .compareGt

/-- Different operators stand for different operations. -/
theorem Operator.operation_injective {a b : Operator} (h : a.operation = b.operation) :
    a = b := by
  cases a <;> cases b <;> simp_all [operation]

/-! ## Assignment forms -/

/-- What an assignment does to the name on its left: establish it, establish it
as one that may change, or change it. -/
inductive TargetKind where
  | bind
  | mutableBind
  | update
  deriving DecidableEq, Repr

namespace TargetKind

/-- The name of an assignment form in printed trees. -/
def label : TargetKind → String
  | bind => "BIND"
  | mutableBind => "MUTABLE_BIND"
  | update => "UPDATE"

/-- The number of an assignment form in printed trees. -/
def number : TargetKind → Nat
  | bind => 1
  | mutableBind => 2
  | update => 3

/-- Every assignment form. -/
def all : List TargetKind := [bind, mutableBind, update]

/-- The assignment form with the given name. -/
def ofLabel? (label : String) : Option TargetKind := all.find? fun k => k.label = label

/-- Reading the name of an assignment form gives the form. -/
theorem ofLabel?_label (k : TargetKind) : ofLabel? k.label = some k := by
  cases k <;> decide

end TargetKind

end Spruce
