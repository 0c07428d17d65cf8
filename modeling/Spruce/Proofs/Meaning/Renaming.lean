import Spruce.Proofs.Meaning.Mentions
import Spruce.Proofs.Meaning.Slices
import Spruce.Proofs.Token.Renaming

set_option autoImplicit false

/-!
# Keywords as names

Keywords are not reserved: wherever a text has an identifier, it may have a keyword instead, and
reads as before but for that one name (`parse_replace_identifier`). Identifiers are parts of names
only, and a name may be any word, so that the derivation is carried over to the tokens with the
keyword; as a text has no other derivation, the keyword is not read as one.
-/

namespace Spruce

variable {filename filename' : Option String}

/-! ## Tokens with one changed -/

/-- A token of the same kind and text, or a keyword for an identifier. -/
def Token.IsRenamed (t u : Token) : Prop :=
  t.IsLike u ∨ t.kind = .identifier ∧ u.kind ∈ Terminal.keywords

/-- Tokens with a keyword for an identifier leave the same in a tree but for names and spans. -/
theorem carries_erased (filename filename' : Option String) :
    Carries .erased .erased filename filename' Token.IsRenamed where
  kind t u h := h.imp And.left id
  name _ _ _ := rfl
  text t u h hnumeric := by
    rcases h with h | ⟨hidentifier, -⟩
    · exact h.2.symm
    · rw [hidentifier] at hnumeric
      exact absurd hnumeric (by decide)
  span _ _ _ := rfl

theorem isRenamed_refl (ts : List Token) : List.Forall₂ Token.IsRenamed ts ts :=
  List.forall₂_same.2 fun _ _ => .inl ⟨rfl, rfl⟩

theorem Token.IsLike.name_eq {t u : Token} (h : t.IsLike u) : u.name = t.name :=
  congrArg String.ofList h.2

/-- Names are the same among tokens that are. -/
theorem namesAmong_isLike {ts us : List Token} (h : List.Forall₂ Token.IsLike ts us)
    (roles : List Nonterminal) : namesAmong roles us = namesAmong roles ts := by
  induction h generalizing roles with
  | nil => rfl
  | cons hfirst _ ih =>
      cases roles with
      | nil => rfl
      | cons role roles => rw [namesAmong, namesAmong, hfirst.name_eq, ih]

/-- Where the same signs touch the numbers after them, none is detached if none was. -/
theorem detachedAmong_eq_nil_of_touches {ts us : List Token}
    (h : (bare us).map BareToken.touches = (bare ts).map BareToken.touches)
    {roles : List Nonterminal} (hnone : detachedAmong roles ts = []) :
    detachedAmong roles us = [] := by
  induction roles generalizing ts us with
  | nil => rfl
  | cons role roles ih =>
      cases us with
      | nil => rfl
      | cons u us =>
          cases ts with
          | nil => exact absurd h (List.cons_ne_nil _ _)
          | cons t ts =>
              rw [detachedAmong, List.append_eq_nil_iff] at hnone
              obtain ⟨hfirst, hlater⟩ := hnone
              obtain ⟨htouches, hafter⟩ := List.cons.inj h
              have htouches : u.touches us = t.touches ts := htouches
              by_cases hdetached : role = .sign ∧ t.touches ts = false
              · rw [if_pos hdetached] at hfirst
                exact absurd hfirst (List.cons_ne_nil _ _)
              · rw [detachedAmong, htouches, if_neg hdetached, ih hafter hlater]
                rfl

/-! ## Names with one changed -/

/-- The names among tokens of which one is replaced by another word. -/
theorem namesAmong_replace {roles : List Nonterminal} (roles' : List Nonterminal)
    {before after after' : List Token} (t u : Token) (hlength : roles.length = before.length)
    (hafter : List.Forall₂ Token.IsLike after after') :
    (namesAmong (roles ++ .name :: roles') (before ++ t :: after))[
        (namesAmong (roles ++ .name :: roles') before).length]? = some t.name ∧
      namesAmong (roles ++ .name :: roles') (before ++ u :: after') =
        (namesAmong (roles ++ .name :: roles') (before ++ t :: after)).set
          (namesAmong (roles ++ .name :: roles') before).length u.name := by
  have hname : ∀ (v : Token) (vs : List Token),
      namesAmong (roles ++ .name :: roles') (before ++ v :: vs) =
        namesAmong roles before ++ v.name :: namesAmong roles' vs := by
    intro v vs
    rw [namesAmong_append hlength, namesAmong, if_pos rfl]
    rfl
  have hbefore : namesAmong (roles ++ .name :: roles') before = namesAmong roles before := by
    have happend : namesAmong (roles ++ .name :: roles') (before ++ []) =
        namesAmong roles before ++ namesAmong (.name :: roles') [] := namesAmong_append hlength
    rw [List.append_nil] at happend
    rw [happend]
    exact List.append_nil _
  rw [hbefore, hname, hname, namesAmong_isLike hafter]
  constructor
  · rw [List.getElem?_append_right (Nat.le_refl _), Nat.sub_self]
    rfl
  · rw [List.set_append_right _ _ (Nat.le_refl _), Nat.sub_self]
    rfl

/-! ## Texts -/

/-- The tree of a text is equal to itself. -/
theorem equal_self_of_parse {start : Start} {text : Text} {n : Node}
    (h : (parse start filename text).outcome = .ok n) : n.equal n = true := by
  obtain ⟨hrest, d, htokens, htight, rfl⟩ := parse_eq_ok_iff.1 h
  rw [Start.detachedSigns_phrase, htokens] at htight
  obtain ⟨m, hm, hequal⟩ : ∃ m, (parse start filename text).outcome = .ok m ∧
      m.equal (start.node (d.understand filename).meaning) = true :=
    parse_of_labels d hrest (congrArg labels htokens.symm) htight
  obtain rfl := Except.ok.inj (hm.symm.trans h)
  exact hequal

/-- In an accepted text any keyword may stand in the place of an identifier: the text is still
accepted, as a program or an expression as before, and its tree is the same but for that name. The
names of the tree are those among the tokens in order, and the one that changes is that of the
identifier. -/
theorem parse_replace_identifier (start : Start) (filename filename' : Option String) (text : Text)
    (n : Node) (before after : List Token) (t : Token) (k : Terminal)
    (h : (parse start filename text).outcome = .ok n)
    (htokens : (lex text).tokens = before ++ t :: after) (ht : t.kind = .identifier)
    (hk : k ∈ Terminal.keywords) :
    ∃ d n', derive start filename text = .ok d ∧
      n.mentions = namesAmong (Start.roles d) (lex text).tokens ∧
      n.mentions[(namesAmong (Start.roles d) before).length]? = some t.name ∧
      (parse start filename' (text.take t.start.offset ++
        (k.spelling ++ text.drop t.stop))).outcome = .ok n' ∧
      n'.equal (n.rename (namesAmong (Start.roles d) before).length
        (String.ofList k.spelling)) = true := by
  obtain ⟨hrest, d, hd, htight, rfl⟩ := parse_eq_ok_iff.1 h
  obtain ⟨hrest', t', after', htokens', hkind, htext, hafter, htouches⟩ :=
    lex_replace_identifier hrest htokens ht hk
  -- the derivation with the keyword in the place of the identifier
  have hcarried : List.Forall₂ Token.IsRenamed d.tokens (before ++ t' :: after') := by
    rw [hd, htokens]
    refine List.rel_append (isRenamed_refl before) (.cons (.inr ⟨ht, hkind ▸ hk⟩) ?_)
    exact hafter.imp fun _ _ hlike => .inl hlike
  have hgoal : start.goal ≠ .tok .identifier := Symbol.noConfusion
  obtain ⟨d', hd', hroles, hagree⟩ :=
    (carries_erased filename filename').exists_carried d hgoal hcarried
  have hroles' : Start.roles d' = Start.roles d := hroles start.nonterminal
  have htight' : (start.phrase d').detachedSigns = [] := by
    rw [Start.detachedSigns_phrase, hd, htokens] at htight
    rw [Start.detachedSigns_phrase, hroles', hd']
    exact detachedAmong_eq_nil_of_touches htouches htight
  have haccepted : (parse start filename' (text.take t.start.offset ++
      (k.spelling ++ text.drop t.stop))).outcome =
        .ok (start.node (d'.understand filename').meaning) :=
    parse_eq_ok_iff.2 ⟨hrest', d', hd'.trans htokens'.symm, htight', rfl⟩
  have hmap : (start.node (d'.understand filename').meaning).map .erased =
      (start.node (d.understand filename).meaning).map .erased := by
    cases start with
    | program => exact hagree.symm
    | expression => exact hagree.symm
  -- the names are those among the tokens, one of which is another
  have hmentions := mentions_of_derivation filename d
  have hmentions' := mentions_of_derivation filename' d'
  obtain ⟨roles, roles', hsplit, hlength⟩ := Start.exists_roles d (hd.trans htokens) ht
  obtain ⟨hget, hset⟩ := namesAmong_replace roles' t t' hlength hafter
  rw [hd, htokens, hsplit] at hmentions
  rw [hd', hroles', hsplit, hset, ← hmentions] at hmentions'
  have hname : t'.name = String.ofList k.spelling := congrArg String.ofList htext
  refine ⟨d, _, derive_eq_ok_iff.2 ⟨hrest, hd⟩, ?_, ?_, haccepted, ?_⟩
  · rw [hmentions, htokens, hsplit]
  · rw [hmentions, hsplit]
    exact hget
  · refine Node.equal_of_mentions _ _ (equal_self_of_parse haccepted) ?_ ?_
    · rw [Node.map_rename, hmap]
    · rw [Node.mentions_rename, hmentions', hsplit, hname]

/-- The name `b` in `a=(b)` may be `case`, and is then the second name of the tree still. -/
theorem parse_replace_identifier_case :
    ∃ n', (parse .program none ['a', '=', '(', 'c', 'a', 's', 'e', ')']).outcome = .ok n' ∧
      n'.equal ((Node.program (some ⟨0, 5, 1, 1, none⟩)
        (.nodes [parenthesisedAssignment])).rename 1 "case") = true := by
  obtain ⟨-, htokens⟩ := derive_eq_ok_iff.1 derive_parenthesised
  obtain ⟨d, n', hd, -, -, hparse, hequal⟩ := parse_replace_identifier .program none none _ _
    [_, _, _] [_] _ .caseKeyword parse_parenthesised htokens.symm rfl (by decide)
  obtain rfl := Except.ok.inj (derive_parenthesised.symm.trans hd)
  exact ⟨n', hparse, hequal⟩

end Spruce
