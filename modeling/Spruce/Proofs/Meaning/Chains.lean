import Spruce.Proofs.Meaning.Nodes
import Spruce.Proofs.Precedence.Stretches

set_option autoImplicit false

/-!
# Derivations of chains

A derivation of an expression is one of a first term and of others, each with an operator before it
(`exists_expressionDerivation`), and it means the chain of what these mean
(`meaning_expressionDerivation`). So a stretch of its terms is derived from some of its tokens that
stand together (`Stretch.tokens_isInfix`).

Main definition: `expressionDerivation`.
-/

namespace Spruce

/-! ## Derivations of chains -/

/-- Some terms, each with the operator before it. -/
abbrev LaterTerms := List (Derivation (.sub .operator) × Derivation (.sub .term))

/-- The chain of a first term and of others. -/
def chainDerivation (first : Derivation (.sub .term)) : LaterTerms → Derivation (.sub .chain)
  | [] => .node .chain (.cons first (.cons (.node .lastTerm .nil) .nil))
  | (operator, term) :: rest => .node .chain (.cons first (.cons
      (.node .nextTerms (.cons operator (.cons (chainDerivation term rest) .nil))) .nil))

/-- The expression of a first term and of others. -/
def expressionDerivation (first : Derivation (.sub .term)) (rest : LaterTerms) :
    Derivation (.sub .expression) := .node .expression (.cons (chainDerivation first rest) .nil)

/-- Every chain has a first term and others. -/
theorem exists_chainDerivation :
    (c : Derivation (.sub .chain)) → ∃ first rest, c = chainDerivation first rest
  | .node .chain (.cons first (.cons (.node .lastTerm .nil) .nil)) => ⟨first, [], rfl⟩
  | .node .chain (.cons first (.cons (.node .nextTerms (.cons operator (.cons c .nil))) .nil)) => by
      obtain ⟨term, rest, rfl⟩ := exists_chainDerivation c
      exact ⟨first, (operator, term) :: rest, rfl⟩
termination_by c => c.tokens.length
decreasing_by
  show c.tokens.length < (first.tokens ++ ((operator.tokens ++ (c.tokens ++ [])) ++ [])).length
  have hoperator := List.length_pos_iff.2 (operator.tokens_ne_nil rfl)
  simp only [List.length_append, List.length_nil]
  omega

theorem exists_expressionDerivation (e : Derivation (.sub .expression)) :
    ∃ first rest, e = expressionDerivation first rest := by
  match e with
  | .node .expression (.cons c .nil) =>
      obtain ⟨first, rest, rfl⟩ := exists_chainDerivation c
      exact ⟨first, rest, rfl⟩

/-- The tokens of some terms with the operators before them. -/
def laterTokens (rest : LaterTerms) : List Token :=
  rest.flatMap fun p => p.1.tokens ++ p.2.tokens

theorem tokens_expressionDerivation (first : Derivation (.sub .term)) (rest : LaterTerms) :
    (expressionDerivation first rest).tokens = first.tokens ++ laterTokens rest := by
  show (chainDerivation first rest).tokens ++ [] = _
  rw [List.append_nil]
  induction rest generalizing first with
  | nil => rfl
  | cons p rest ih =>
      obtain ⟨operator, term⟩ := p
      show first.tokens ++
        ((operator.tokens ++ ((chainDerivation term rest).tokens ++ [])) ++ []) = _
      rw [ih, laterTokens, laterTokens, List.flatMap_cons, List.append_nil, List.append_nil,
        List.append_assoc]

theorem tokens_expressionDerivation_append (first term : Derivation (.sub .term))
    (operator : Derivation (.sub .operator)) (before after : LaterTerms) :
    (expressionDerivation first (before ++ (operator, term) :: after)).tokens =
      (expressionDerivation first before).tokens ++
        (operator.tokens ++ (expressionDerivation term after).tokens) := by
  simp only [tokens_expressionDerivation, laterTokens, List.flatMap_append, List.flatMap_cons,
    List.append_assoc]

/-- The tokens of a term are among those of the expression. -/
theorem tokens_isInfix_of_mem {d first : Derivation (.sub .term)} {rest : LaterTerms}
    (h : d ∈ first :: rest.map Prod.snd) :
    d.tokens <:+: (expressionDerivation first rest).tokens := by
  rcases List.mem_cons.1 h with rfl | h
  · rw [tokens_expressionDerivation]
    exact (List.prefix_append _ _).isInfix
  · obtain ⟨⟨operator, term⟩, hp, rfl⟩ := List.mem_map.1 h
    obtain ⟨before, after, rfl⟩ := List.append_of_mem hp
    rw [tokens_expressionDerivation_append, tokens_expressionDerivation term]
    exact ⟨(expressionDerivation first before).tokens ++ operator.tokens, laterTokens after,
      by simp only [List.append_assoc]⟩

theorem isTight_chainDerivation_cons {first term : Derivation (.sub .term)}
    {operator : Derivation (.sub .operator)} {rest : LaterTerms} :
    (chainDerivation first ((operator, term) :: rest)).IsTight ↔
      first.IsTight ∧ operator.IsTight ∧ (chainDerivation term rest).IsTight :=
  (Derivation.isTight_iff_parts (by decide)).trans (Derivations.isTight_pair.trans
    (and_congr_right' ((Derivation.isTight_iff_parts (by decide)).trans Derivations.isTight_pair)))

/-- The signs of an expression are those of its parts. -/
theorem isTight_expressionDerivation {first : Derivation (.sub .term)} {rest : LaterTerms} :
    (expressionDerivation first rest).IsTight ↔
      first.IsTight ∧ ∀ p ∈ rest, p.1.IsTight ∧ p.2.IsTight := by
  have hchain : (expressionDerivation first rest).IsTight ↔
      (chainDerivation first rest).IsTight :=
    (Derivation.isTight_iff_parts (by decide)).trans Derivations.isTight_single
  rw [hchain]
  clear hchain
  induction rest generalizing first with
  | nil =>
      refine (Derivation.isTight_iff_parts (by decide)).trans (Derivations.isTight_pair.trans ?_)
      exact ⟨fun h => ⟨h.1, fun p hp => absurd hp List.not_mem_nil⟩, fun h => ⟨h.1, rfl⟩⟩
  | cons p rest ih =>
      rw [List.forall_mem_cons, and_assoc]
      exact isTight_chainDerivation_cons.trans (and_congr_right' (and_congr_right' ih))

/-! ## Meanings of chains -/

/-- What a derivation of a term means. -/
def Derivation.term (filename : Option String) (d : Derivation (.sub .term)) : Node :=
  (d.understand filename).meaning

/-- What a derivation of an operator means. -/
def Derivation.operator (filename : Option String) (d : Derivation (.sub .operator)) : Operator :=
  (d.understand filename).meaning

/-- Some terms with the operators before them, as they are meant. -/
def laterMeanings (filename : Option String) (rest : LaterTerms) : List (Operator × Node) :=
  rest.map (Prod.map (Derivation.operator filename) (Derivation.term filename))

/-- An expression means the chain of what its terms and operators mean. -/
theorem meaning_expressionDerivation (filename : Option String) (first : Derivation (.sub .term))
    (rest : LaterTerms) : ∃ span, ((expressionDerivation first rest).understand filename).meaning =
      chainExpr span (first.term filename) (laterMeanings filename rest) := by
  have hchain : ((chainDerivation first rest).understand filename).meaning =
      Chain.mk (first.term filename :: (laterMeanings filename rest).map Prod.snd)
        ((laterMeanings filename rest).map Prod.fst) := by
    induction rest generalizing first with
    | nil => rfl
    | cons p rest ih =>
        exact congrArg (fun c : Chain => Chain.mk (first.term filename :: c.terms)
          (p.1.operator filename :: c.operators)) (ih p.2)
  exact ⟨_, congrArg (Chain.node _) hchain⟩

/-! ## Derivations of stretches -/

/-- A stretch of an expression stands together among its tokens. -/
theorem Stretch.tokens_isInfix {first first' : Derivation (.sub .term)} {rest rest' : LaterTerms}
    (h : Stretch first rest first' rest') :
    (expressionDerivation first' rest').tokens <:+: (expressionDerivation first rest).tokens := by
  induction h with
  | whole => exact List.infix_rfl
  | before _ ih =>
      rw [tokens_expressionDerivation_append] at ih
      exact (List.prefix_append _ _).isInfix.trans ih
  | after _ ih =>
      rw [tokens_expressionDerivation_append, ← List.append_assoc] at ih
      exact (List.suffix_append _ _).isInfix.trans ih

/-- A stretch of a tight expression is tight. -/
theorem Stretch.isTight {first first' : Derivation (.sub .term)} {rest rest' : LaterTerms}
    (h : Stretch first rest first' rest') (htight : (expressionDerivation first rest).IsTight) :
    (expressionDerivation first' rest').IsTight := by
  induction h with
  | whole => exact htight
  | before _ ih =>
      obtain ⟨hfirst, hrest⟩ := isTight_expressionDerivation.1 ih
      exact isTight_expressionDerivation.2 ⟨hfirst, (List.forall_mem_append.1 hrest).1⟩
  | after _ ih =>
      obtain ⟨-, hrest⟩ := isTight_expressionDerivation.1 ih
      obtain ⟨⟨-, hfirst⟩, hlater⟩ := List.forall_mem_cons.1 (List.forall_mem_append.1 hrest).2
      exact isTight_expressionDerivation.2 ⟨hfirst, hlater⟩

end Spruce
