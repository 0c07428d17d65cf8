import Spruce.Grammar.Rule
import Spruce.Token.Lexer

set_option autoImplicit false

/-!
# Derivations

A derivation of a symbol is a tree that has the symbol at its root, a rule of the
grammar at every inner node and tokens at its leaves. It is indexed by its
symbol, so that every derivation there is follows the grammar.

A pending derivation is a derivation on its way: what has been decided so far
when a text is read from left to right, indexed by the symbols that are still to
come. Given derivations of those, it becomes a derivation of its goal.

Main definitions: the mutual types `Derivation` and `Derivations`, their
`tokens`, the type `Pending`, and `Pending.finish`. Main statement: finishing a
pending derivation puts its tokens before those of what was to come
(`finish_tokens`).
-/

namespace Spruce

/-! ## Derivations -/

mutual

/-- Derivations of a symbol. -/
inductive Derivation : Symbol → Type where
  /-- A token is derived from its own kind. -/
  | token (t : Terminal) (token : Token) (kind_eq : token.kind = t) : Derivation (.tok t)
  /-- A rule is followed by deriving each of its parts. -/
  | node {x : Nonterminal} (rule : Rule x) (parts : Derivations rule.parts) :
      Derivation (.sub x)

/-- Derivations of some symbols, one after another. -/
inductive Derivations : List Symbol → Type where
  | nil : Derivations []
  | cons {s : Symbol} {ss : List Symbol} (first : Derivation s) (rest : Derivations ss) :
      Derivations (s :: ss)

end

mutual

/-- The tokens of a derivation, from left to right. -/
def Derivation.tokens : {s : Symbol} → Derivation s → List Token
  | _, .token _ token _ => [token]
  | _, .node _ parts => parts.tokens
termination_by structural _ d => d

/-- The tokens of some derivations, from left to right. -/
def Derivations.tokens : {ss : List Symbol} → Derivations ss → List Token
  | _, .nil => []
  | _, .cons first rest => first.tokens ++ rest.tokens
termination_by structural _ ds => ds

end

namespace Derivations

/-- Derivations taken apart after the symbols `ss`. -/
def split : (ss : List Symbol) → {ts : List Symbol} → Derivations (ss ++ ts) →
    Derivations ss × Derivations ts
  | [], _, later => (.nil, later)
  | _ :: ss, _, .cons first rest =>
      let (earlier, later) := split ss rest
      (.cons first earlier, later)

theorem split_tokens {ss ts : List Symbol} (ds : Derivations (ss ++ ts)) :
    (split ss ds).1.tokens ++ (split ss ds).2.tokens = ds.tokens := by
  induction ss with
  | nil => rfl
  | cons s ss ih =>
      cases ds with
      | cons first rest => simp [split, tokens, ← ih rest, List.append_assoc]

end Derivations

/-! ## Pending derivations -/

/-- What has been decided of a derivation of `goal` when the symbols of the index
are still to come. -/
inductive Pending (goal : Symbol) : List Symbol → Type where
  /-- Nothing has been decided. -/
  | start : Pending goal [goal]
  /-- The next symbol is derived by a rule. -/
  | follow {x : Nonterminal} {later : List Symbol} (before : Pending goal (.sub x :: later))
      (rule : Rule x) : Pending goal (rule.parts ++ later)
  /-- The next symbol is a token. -/
  | shift {t : Terminal} {later : List Symbol} (before : Pending goal (.tok t :: later))
      (token : Token) (kind_eq : token.kind = t) : Pending goal later

namespace Pending

variable {goal : Symbol}

/-- The tokens of a pending derivation, from left to right. -/
def tokens : {later : List Symbol} → Pending goal later → List Token
  | _, .start => []
  | _, .follow before _ => before.tokens
  | _, .shift before token _ => before.tokens ++ [token]

/-- The derivation that a pending derivation becomes with what was to come. -/
def finish : {later : List Symbol} → Pending goal later → Derivations later → Derivation goal
  | _, .start, .cons first .nil => first
  | _, .follow before rule, ds =>
      let (parts, later) := ds.split rule.parts
      before.finish (.cons (.node rule parts) later)
  | _, .shift before token kind_eq, ds => before.finish (.cons (.token _ token kind_eq) ds)

/-- Finishing keeps the tokens, in order. -/
theorem finish_tokens {later : List Symbol} (p : Pending goal later) (ds : Derivations later) :
    (p.finish ds).tokens = p.tokens ++ ds.tokens := by
  induction p with
  | start =>
      match ds with
      | .cons first .nil => simp [finish, tokens, Derivations.tokens]
  | follow before rule ih =>
      simp [finish, tokens, ih, Derivations.tokens, Derivation.tokens, Derivations.split_tokens]
  | shift before token kind_eq ih =>
      simp [finish, tokens, ih, Derivations.tokens, Derivation.tokens]

end Pending

end Spruce
