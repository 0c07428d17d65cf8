import Spruce.Proofs.Meaning.Carried

set_option autoImplicit false

/-!
# The names of a text

The names in a tree that was read are the names among the tokens, in order
(`mentions_of_derivation`). A rule neither drops a name of its parts nor repeats or moves one
(`mentions_ruleMeaning`), and the tokens that are names are those that are parts of rules for names
(`namesAmong`).

Main definitions: `Nonterminal.mentions` and `namesAmong`.
-/

namespace Spruce

/-! ## Names in meanings -/

/-- The names in a meaning, from left to right. -/
def Nonterminal.mentions : (x : Nonterminal) → x.Meaning → List String
  | .program, n | .loneExpression, n | .item, n | .functionDecl, n | .typeDecl, n
  | .typeOption, n | .typeExpr, n | .body, n | .statement, n | .assignment, n | .target, n
  | .assignedValue, n | .trailing, n | .caseExpr, n | .caseOption, n | .pattern, n | .arm, n
  | .armBody, n | .expression, n | .term, n | .call, n | .reference, n | .number, n =>
      Node.mentions n
  | .items, ns | .moreItems, ns | .typeOptions, ns | .moreTypeOptions, ns | .typeArguments, ns
  | .typeExprs, ns | .moreTypeExprs, ns | .caseOptions, ns | .moreCaseOptions, ns
  | .callArguments, ns | .arguments, ns | .moreArguments, ns => List.flatMap Node.mentions ns
  | .bodyLines, lines | .armLines, lines | .moreArmLines, lines =>
      (Lines.statements lines).flatMap Node.mentions ++
        (Lines.trailing lines).toList.flatMap Node.mentions
  | .chain, c | .moreChain, c => (Chain.terms c).flatMap Node.mentions
  | .typeParameters, ss | .optionalNames, ss | .names, ss | .moreNames, ss | .bindings, ss => ss
  | .name, s => [s]
  | .optionalNewline, _ | .sign, _ | .operator, _ => []

/-- The names in the meaning of a symbol; tokens are named by the rules that they are parts of. -/
def Symbol.mentions : (s : Symbol) → s.Meaning → List String
  | .tok _, _ => []
  | .sub x, m => x.mentions m

/-- The names in some meanings, one after another. -/
def Meanings.mentions : {ss : List Symbol} → Meanings ss → List String
  | [], _ => []
  | s :: _, (m, ms) => s.mentions m ++ Meanings.mentions ms

/-- The names in a node that is no number are those in its fields, one after another. -/
theorem Node.mentions_of_fields (type : NodeType) (htype : type ≠ .number) (span : Option Span)
    {fields : List Value} {names : List (List String)}
    (h : List.Forall₂ (fun v ss => v.mentions = ss) fields names) :
    (⟨type, span, fields⟩ : Node).mentions = names.flatten := by
  rw [Node.mentions_of_type htype]
  induction h with
  | nil => rfl
  | cons hfirst _ ih => rw [List.flatMap_cons, List.flatten_cons, hfirst, ih]

theorem flatMap_mentions_cons (n : Node) (ns : List Node) :
    (n :: ns).flatMap Node.mentions = n.mentions ++ (ns.flatMap Node.mentions ++ []) := by
  rw [List.flatMap_cons, List.append_nil]

theorem Lines.mentions_after (n : Node) (lines : Lines) :
    Nonterminal.mentions .bodyLines (lines.after n) =
      n.mentions ++ (Nonterminal.mentions .bodyLines lines ++ []) := by
  rw [List.append_nil]
  exact List.append_assoc _ _ _

theorem Lines.mentions_node (span : Option Span) (lines : Lines) :
    (lines.node span).mentions = Nonterminal.mentions .bodyLines lines ++ [] := by
  refine (Node.mentions_of_fields .body (by decide) span
    (.cons (mentions_nodes _) (.cons (mentions_optionalNode _) .nil))).trans ?_
  exact (List.append_assoc _ _ _).symm

theorem Chain.mentions_node (span : Option Span) (chain : Chain) :
    (chain.node span).mentions = chain.terms.flatMap Node.mentions ++ [] :=
  Node.mentions_of_fields .expr (by decide) span
    (.cons (mentions_nodes _) (.cons (mentions_operators _) .nil))

theorem Chain.mentions_single (span : Option Span) (n : Node) :
    ((Chain.single n).node span).mentions = n.mentions ++ [] :=
  (mentions_node span (single n)).trans (List.append_nil _)

/-- The names in what a rule makes are the names in its parts, in order. -/
theorem mentions_ruleMeaning {x : Nonterminal} (hx : x ≠ .name) (rule : Rule x)
    (span : Option Span) (ms : Meanings rule.parts) :
    x.mentions (ruleMeaning rule span ms) = ms.mentions := by
  cases rule with
  | program =>
      exact Node.mentions_of_fields .program (by decide) span (.cons (mentions_nodes ms.2.1) .nil)
  | functionDecl =>
      exact Node.mentions_of_fields .functionDecl (by decide) span (.cons (mentions_text ms.1)
        (.cons (mentions_names ms.2.2.1) (.cons (mentions_node ms.2.2.2.2.2.2.1) .nil)))
  | typeDecl =>
      exact Node.mentions_of_fields .typeDecl (by decide) span (.cons (mentions_text ms.2.1)
        (.cons (mentions_names ms.2.2.1) (.cons (mentions_nodes ms.2.2.2.2.2.1) .nil)))
  | typeOption =>
      exact Node.mentions_of_fields .typeOption (by decide) span
        (.cons (mentions_text ms.1) (.cons (mentions_nodes ms.2.1) .nil))
  | typeExpr =>
      exact Node.mentions_of_fields .typeExpr (by decide) span
        (.cons (mentions_text ms.1) (.cons (mentions_nodes ms.2.1) .nil))
  | call =>
      exact Node.mentions_of_fields .call (by decide) span
        (.cons (mentions_text ms.1) (.cons (mentions_nodes ms.2.2.1) .nil))
  | caseExpr =>
      exact Node.mentions_of_fields .caseOf (by decide) span
        (.cons (mentions_node ms.2.1) (.cons (mentions_nodes ms.2.2.2.2.1) .nil))
  | pattern =>
      exact Node.mentions_of_fields .casePattern (by decide) span
        (.cons (mentions_text ms.1) (.cons (mentions_names ms.2.1) .nil))
  | someItems | typeExprs | arguments => exact flatMap_mentions_cons ms.1 ms.2.1
  | typeOptions | caseOptions => exact flatMap_mentions_cons ms.1 ms.2.2.1
  | body | armBody => exact Lines.mentions_node span ms.1
  | statementLine => exact Lines.mentions_after ms.1 ms.2.2.1
  | statementArmLine => exact Lines.mentions_after ms.1 ms.2.1
  | expression => exact Chain.mentions_node span ms.1
  | chainTrailing =>
      exact (Chain.mentions_node span _).trans (List.append_assoc _ _ _)
  | referenceTrailing | numberTrailing => exact Chain.mentions_single span ms.1
  | parenthesisedTrailing => exact Chain.mentions_single span ms.2.1
  | chain => exact flatMap_mentions_cons ms.1 (Chain.terms ms.2.1)
  | identifierName | typeName | caseName | mutName => exact absurd rfl hx
  | _ => first | rfl | exact (List.append_nil _).symm

/-! ## Names among tokens -/

/-- The names among some tokens with the given roles. -/
def namesAmong : List Nonterminal → List Token → List String
  | role :: roles, t :: ts => (if role = .name then [t.name] else []) ++ namesAmong roles ts
  | _, _ => []

theorem namesAmong_append {roles roles' : List Nonterminal} {ts ts' : List Token}
    (hlength : roles.length = ts.length) :
    namesAmong (roles ++ roles') (ts ++ ts') = namesAmong roles ts ++ namesAmong roles' ts' := by
  induction roles generalizing ts with
  | nil =>
      obtain rfl : ts = [] := List.length_eq_zero_iff.1 hlength.symm
      rfl
  | cons role roles ih =>
      obtain ⟨t, ts, rfl⟩ := List.exists_cons_of_length_eq_add_one hlength.symm
      rw [List.cons_append, List.cons_append, namesAmong, ih (Nat.succ.inj hlength),
        ← List.append_assoc]
      rfl

variable {filename : Option String}

mutual

/-- The names in what a derivation means are those among its tokens. -/
theorem Derivation.mentions_eq {x : Nonterminal} (hx : x ≠ .name) : {s : Symbol} →
    (d : Derivation s) →
      s.mentions (d.understand filename).meaning = namesAmong (d.roles x) d.tokens
  | _, .token _ _ _ => by
      rw [Derivation.roles, Derivation.tokens, namesAmong, if_neg hx]
      rfl
  | .sub y, .node rule parts => by
      by_cases hy : y = .name
      · subst hy
        obtain ⟨t, htokens, -, hroles, hmeaning⟩ := (Derivation.node rule parts).exists_name
        rw [hroles, htokens]
        exact congrArg (fun s => [s]) (hmeaning filename)
      · exact (mentions_ruleMeaning hy rule _ _).trans (parts.mentions_eq hy)

theorem Derivations.mentions_eq {x : Nonterminal} (hx : x ≠ .name) : {ss : List Symbol} →
    (ds : Derivations ss) →
      (ds.understand filename).meanings.mentions = namesAmong (ds.roles x) ds.tokens
  | _, .nil => rfl
  | _, .cons first rest => by
      rw [Derivations.roles, Derivations.tokens, namesAmong_append (first.roles_length x),
        ← first.mentions_eq hx, ← rest.mentions_eq hx]
      rfl

end

/-- The names in the tree of a text are those among its tokens, in order. -/
theorem mentions_of_derivation (filename : Option String) {start : Start}
    (d : Derivation start.goal) :
    (start.node (d.understand filename).meaning).mentions =
      namesAmong (Start.roles d) d.tokens := by
  cases start with
  | program => exact Derivation.mentions_eq (x := .program) (by decide) d
  | expression => exact Derivation.mentions_eq (x := .loneExpression) (by decide) d

mutual

/-- Identifiers are names. -/
theorem Derivation.role_of_identifier : {s : Symbol} → (d : Derivation s) →
    s ≠ .tok .identifier → (x : Nonterminal) →
      ∀ p ∈ (d.roles x).zip d.tokens, p.2.kind = .identifier → p.1 = .name
  | _, .token _ t kind_eq, hs, x, p, hp, hkind => by
      obtain rfl := List.mem_singleton.1 hp
      exact absurd (congrArg Symbol.tok (kind_eq.symm.trans hkind)) hs
  | .sub y, .node rule parts, _, x, p, hp, hkind => by
      by_cases hy : y = .name
      · subst hy
        obtain ⟨t, htokens, -, hroles, -⟩ := (Derivation.node rule parts).exists_name
        rw [hroles, htokens] at hp
        rw [List.mem_singleton.1 hp]
      · exact parts.role_of_identifier (identifier_not_mem_parts hy rule) y p hp hkind

theorem Derivations.role_of_identifier : {ss : List Symbol} → (ds : Derivations ss) →
    (∀ s ∈ ss, s ≠ .tok .identifier) → (x : Nonterminal) →
      ∀ p ∈ (ds.roles x).zip ds.tokens, p.2.kind = .identifier → p.1 = .name
  | _, .nil, _, _, p, hp, _ => absurd hp List.not_mem_nil
  | _, .cons first rest, hss, x, p, hp, hkind => by
      obtain ⟨hs, hlater⟩ := List.forall_mem_cons.1 hss
      rw [Derivations.roles, Derivations.tokens, List.zip_append (first.roles_length x)] at hp
      rcases List.mem_append.1 hp with hp | hp
      · exact first.role_of_identifier hs x p hp hkind
      · exact rest.role_of_identifier hlater x p hp hkind

end

/-- The roles of tokens on either side of an identifier, which is a name. -/
theorem Start.exists_roles {start : Start} (d : Derivation start.goal) {before after : List Token}
    {t : Token} (htokens : d.tokens = before ++ t :: after) (ht : t.kind = .identifier) :
    ∃ roles roles', Start.roles d = roles ++ .name :: roles' ∧ roles.length = before.length := by
  obtain ⟨roles, later, hroles, hbefore, hlater⟩ := Start.exists_roles_append d htokens
  cases later with
  | nil => exact absurd hlater (Nat.succ_ne_zero _).symm
  | cons role roles' =>
      have hmem : (role, t) ∈ (Start.roles d).zip d.tokens := by
        rw [hroles, htokens, List.zip_append hbefore, List.zip_cons_cons]
        exact List.mem_append_right _ List.mem_cons_self
      have hgoal : start.goal ≠ .tok .identifier := Symbol.noConfusion
      obtain rfl : role = .name := d.role_of_identifier hgoal start.nonterminal _ hmem ht
      exact ⟨roles, roles', hroles, hbefore⟩

end Spruce
