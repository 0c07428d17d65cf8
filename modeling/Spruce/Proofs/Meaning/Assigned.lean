import Spruce.Proofs.Meaning.LoneExpressions
import Spruce.Proofs.Meaning.Operations

set_option autoImplicit false

/-!
# Expressions that are assigned

A text on one line is an expression just when `x = ` before it makes a program of it, and the
program then assigns that expression (`parse_assigned`). A program may go on in many more ways
behind the equals sign, with a case construct or with further items, but each of them takes a
newline to complete (`Derivation.exists_eq_assigned`). What is cut off the text does not depend on
what is before it (`lex_assigned`), so that the tokens of the expression are the same in both places
but for where they stand, and have the same derivation.
-/

namespace Spruce

variable {filename filename' : Option String} {text : Text}

/-! ## Texts on one line -/

theorem Text.IsLineRun.mem_line_feed {w : Text} (h : w.IsLineRun) : '\n' ∈ w := by
  obtain ⟨breaks, hne, hbreaks, rfl⟩ := h
  obtain ⟨b, later, rfl⟩ := List.exists_cons_of_ne_nil hne
  obtain ⟨indent, -, rfl | rfl⟩ := hbreaks b List.mem_cons_self <;> simp

/-- A text without line feeds has no newline tokens. -/
theorem newline_not_mem_kinds_of_lex (h : '\n' ∉ text) :
    Terminal.newline ∉ kinds (lex text).tokens := by
  obtain ⟨ls, rest, rfl, hls, -, heq⟩ := exists_lexFrom_eq text
  rw [lex, heq]
  intro hmem
  obtain ⟨t, ht, hkind⟩ := List.mem_map.1 hmem
  obtain ⟨before, after, hsplit⟩ := List.append_of_mem ht
  obtain ⟨ls₁, l, ls₂, rfl, -, hl, -, -⟩ := exists_of_place_eq hsplit
  rw [hkind] at hl
  -- the text of a newline token is line breaks, each with a line feed in it
  have hrun := (hls.areCut.isProper l (by simp)).isLineRun hl
  apply h
  rw [textOf_append, textOf_cons]
  simp [hrun.mem_line_feed]

/-! ## The text before an expression -/

/-- The assignment of what comes next to a name. -/
def Text.assigned (text : Text) : Text := ['x', ' ', '=', ' '] ++ text

/-- The token of the name. -/
def nameToken : Token := .at .identifier ['x'] .origin

/-- The token of the equals sign behind the name. -/
def equalToken : Token := .at .equal ['='] ⟨2, 1, 3⟩

theorem nameToken_kind : nameToken.kind = .identifier := rfl

theorem equalToken_kind : equalToken.kind = .equal := rfl

/-- The tokens of a text come after those of the name and the equals sign before it, and are the
same but for their places. -/
theorem lex_assigned (text : Text) : ∃ ts,
    (lex text.assigned).tokens = nameToken :: equalToken :: ts ∧
      (lex text.assigned).rest = (lex text).rest ∧ bare ts = bare (lex text).tokens := by
  have hname : lexeme (['x'] ++ ' ' :: '=' :: ' ' :: text) = some ⟨some .identifier, ['x']⟩ :=
    lexeme_name (by decide) (Text.opens_cons.2 (by decide))
  have hequal : lexeme (['='] ++ ' ' :: text) = some ⟨some .equal, ['=']⟩ :=
    lexeme_symbol (t := .equal) (by decide) (Text.opens_cons.2 (by decide))
  have hlex : lex text.assigned = ((lexFrom ⟨4, 1, 5⟩ text).prepend [equalToken]).prepend
      [nameToken] := by
    show lexFrom .origin (['x'] ++ ' ' :: '=' :: ' ' :: text) = _
    rw [lexFrom_token hname, lexFrom_blank rfl]
    show (lexFrom _ (['='] ++ ' ' :: text)).prepend _ = _
    rw [lexFrom_token hequal, lexFrom_blank rfl]
    rfl
  -- behind the blanks the text is cut as it is alone, from another place on
  obtain ⟨ls, rest, rfl, hls, -, heq⟩ := exists_lexFrom_eq text
  refine ⟨(lexFrom ⟨4, 1, 5⟩ (textOf ls ++ rest)).tokens, ?_, ?_, ?_⟩
  · rw [hlex]
    rfl
  · rw [hlex, lex, heq .origin]
    show (lexFrom _ _).rest = _
    rw [heq]
  · rw [lex, heq, heq, bare_place hls.areCut.text_ne_nil, bare_place hls.areCut.text_ne_nil]

/-! ## Programs that assign an expression -/

/-- The assignment of an expression as an item. -/
def Derivation.assignItem (target : Derivation (.sub .target))
    (e : Derivation (.sub .expression)) : Derivation (.sub .item) :=
  .node .assignmentItem (.cons (.node .assignment (.cons target
    (.cons (.node .expressionValue (.cons e .nil)) .nil))) .nil)

/-- A name with an equals sign as a target. -/
def Derivation.bindTarget {name equal : Token} (hname : name.kind = .identifier)
    (hequal : equal.kind = .equal) : Derivation (.sub .target) :=
  .node .bindTarget (.cons (.node .identifierName (.cons (.token _ name hname) .nil))
    (.cons (.token _ equal hequal) .nil))

/-- An expression assigned to a name, as a program. -/
def Derivation.assigned {name equal : Token} (hname : name.kind = .identifier)
    (hequal : equal.kind = .equal) (e : Derivation (.sub .expression)) :
    Derivation Start.program.goal :=
  asProgram (assignItem (bindTarget hname hequal) e)

section

variable {name equal : Token} {hname : name.kind = .identifier} {hequal : equal.kind = .equal}
  {target : Derivation (.sub .target)} {e : Derivation (.sub .expression)}

theorem Derivation.assignItem_tokens :
    (assignItem target e).tokens = target.tokens ++ e.tokens := by
  simp [assignItem, Derivation.tokens, Derivations.tokens]

theorem Derivation.assigned_tokens :
    (assigned hname hequal e).tokens = name :: equal :: e.tokens :=
  (asProgram_tokens _).trans assignItem_tokens

theorem Derivation.isTight_assignItem :
    (assignItem target e).IsTight ↔ target.IsTight ∧ e.IsTight := by
  let value : Derivation (.sub .assignedValue) := .node .expressionValue (.cons e .nil)
  let assignment : Derivation (.sub .assignment) :=
    .node .assignment (.cons target (.cons value .nil))
  have hitem : (assignItem target e).IsTight ↔ assignment.IsTight :=
    (isTight_iff_parts (by decide)).trans Derivations.isTight_single
  have hassignment : assignment.IsTight ↔ target.IsTight ∧ value.IsTight :=
    (isTight_iff_parts (by decide)).trans Derivations.isTight_pair
  have hvalue : value.IsTight ↔ e.IsTight :=
    (isTight_iff_parts (by decide)).trans Derivations.isTight_single
  rw [hitem, hassignment, hvalue]

/-- The signs of numbers in a program that assigns to a name are those in the expression. -/
theorem Derivation.isTight_assigned : (assigned hname hequal e).IsTight ↔ e.IsTight := by
  have htarget : (bindTarget hname hequal).IsTight := rfl
  constructor
  · intro htight
    obtain ⟨hitem, -⟩ := isTight_someItems.1 (isTight_items _ htight)
    exact (isTight_assignItem.1 hitem).2
  · exact fun he => isTight_asProgram (isTight_assignItem.2 ⟨htarget, he⟩)

/-- The program is one assignment to the name of what the expression means. -/
theorem Derivation.equal_assigned {m : Node}
    (h : Node.equal (e.understand filename).meaning m = true) :
    Node.equal ((assigned hname hequal e).understand filename).meaning
      (.program none (.nodes [.assign none
        (.node (.target none (.targetKind .bind) (.text name.name))) (.node m)])) = true := by
  obtain ⟨span, span', span'', hmeaning⟩ : ∃ span span' span'',
      ((assigned hname hequal e).understand filename).meaning =
        Node.program span (.nodes [.assign span'
          (.node (.target span'' (.targetKind .bind) (.text name.name)))
          (.node (e.understand filename).meaning)]) := ⟨_, _, _, rfl⟩
  have htarget : Node.equal (.target span'' (.targetKind .bind) (.text name.name))
      (.target none (.targetKind .bind) (.text name.name)) = true :=
    Node.equal_of_two (Value.equal_targetKind .bind) (Value.equal_text name.name)
  have hassign : NodesEqual
      [.assign span' (.node (.target span'' (.targetKind .bind) (.text name.name)))
        (.node (e.understand filename).meaning)]
      [.assign none (.node (.target none (.targetKind .bind) (.text name.name))) (.node m)] :=
    .cons (Node.equal_of_two htarget h) .nil
  rw [hmeaning]
  exact Node.equal_of_fields (equalAll_cons hassign.equal_nodes rfl)

end

/-! ## Programs on one line -/

/-- A terminal among some symbols is the kind of a token. -/
theorem Derivations.mem_kinds {t : Terminal} : {ss : List Symbol} → (ds : Derivations ss) →
    .tok t ∈ ss → t ∈ kinds ds.tokens
  | _, .nil, h => absurd h List.not_mem_nil
  | _, .cons first rest, h => by
      rw [Derivations.tokens, kinds_append, List.mem_append]
      rcases List.mem_cons.1 h with hfirst | hrest
      · left
        subst hfirst
        match first with
        | .token _ token kind_eq => exact List.mem_singleton.2 kind_eq.symm
      · exact .inr (rest.mem_kinds hrest)

/-- A case construct has a newline behind each of its options. -/
theorem Derivation.newline_mem_caseExpr (d : Derivation (.sub .caseExpr)) :
    Terminal.newline ∈ kinds d.tokens := by
  match d with
  | .node .caseExpr (.cons _ (.cons _ (.cons _ (.cons _
      (.cons (.node .caseOptions options) _))))) =>
      have hoptions : Terminal.newline ∈ kinds options.tokens := options.mem_kinds (by decide)
      simp only [Derivation.tokens, Derivations.tokens, kinds_append, List.mem_append]
      tauto

/-- A program on one line that has an item at all assigns an expression. -/
theorem Derivation.exists_eq_assignItem (d : Derivation (.sub .program)) (hne : d.tokens ≠ [])
    (hnone : Terminal.newline ∉ kinds d.tokens) :
    ∃ target e, d = asProgram (assignItem target e) := by
  match d with
  | program (someNewline t h) items =>
      exact absurd (List.mem_map.2 ⟨t, by simp, h⟩) hnone
  | program noNewline noItems => exact absurd rfl hne
  | program noNewline (someItems item (nextItems t h items)) =>
      exact absurd (List.mem_map.2 ⟨t, by simp, h⟩) hnone
  -- functions and data types have a newline behind the opening brace
  | program noNewline (someItems (.node .functionItem (.cons (.node .functionDecl parts) .nil))
      (.node .lastItem .nil)) =>
      have hparts : Terminal.newline ∈ kinds parts.tokens := parts.mem_kinds (by decide)
      refine absurd ?_ hnone
      simp [Derivation.tokens, Derivations.tokens, hparts]
  | program noNewline (someItems (.node .typeItem (.cons (.node .typeDecl parts) .nil))
      (.node .lastItem .nil)) =>
      have hparts : Terminal.newline ∈ kinds parts.tokens := parts.mem_kinds (by decide)
      refine absurd ?_ hnone
      simp [Derivation.tokens, Derivations.tokens, hparts]
  | program noNewline (someItems (.node .assignmentItem (.cons (.node .assignment (.cons target
      (.cons (.node .caseValue (.cons c .nil)) .nil))) .nil)) (.node .lastItem .nil)) =>
      have hcase := c.newline_mem_caseExpr
      refine absurd ?_ hnone
      simp [Derivation.tokens, Derivations.tokens, kinds_append, hcase]
  | program noNewline (someItems (.node .assignmentItem (.cons (.node .assignment (.cons target
      (.cons (.node .expressionValue (.cons e .nil)) .nil))) .nil)) (.node .lastItem .nil)) =>
      exact ⟨target, e, rfl⟩

/-- A target that begins with an identifier and an equals sign is no more than these. -/
theorem Derivation.eq_of_target_tokens_append (d : Derivation (.sub .target)) {name equal : Token}
    {later ts : List Token} (hname : name.kind = .identifier) (hequal : equal.kind = .equal)
    (h : d.tokens ++ later = name :: equal :: ts) : later = ts := by
  match d with
  | .node .bindTarget (.cons n (.cons (.token _ t ht) .nil)) =>
      obtain ⟨u, hu, -⟩ := n.name_tokens
      have htokens : (n.tokens ++ [t]) ++ later = name :: equal :: ts := h
      rw [hu] at htokens
      exact (List.cons.inj (List.cons.inj htokens).2).2
  -- the keyword comes before the name
  | .node .mutableTarget (.cons (.token _ t ht) _) =>
      obtain ⟨rfl, -⟩ := List.cons.inj h
      exact absurd (ht.symm.trans hname) (by decide)
  -- another sign comes behind the name
  | .node .updateTarget (.cons n (.cons (.token _ t ht) .nil)) =>
      obtain ⟨u, hu, -⟩ := n.name_tokens
      have htokens : (n.tokens ++ [t]) ++ later = name :: equal :: ts := h
      rw [hu] at htokens
      obtain ⟨-, htail⟩ := List.cons.inj htokens
      obtain ⟨rfl, -⟩ := List.cons.inj htail
      exact absurd (ht.symm.trans hequal) (by decide)

/-- A program on one line that begins with an identifier and an equals sign assigns an expression
to that identifier. -/
theorem Derivation.exists_eq_assigned {d : Derivation (.sub .program)} {name equal : Token}
    {ts : List Token} (hname : name.kind = .identifier) (hequal : equal.kind = .equal)
    (hd : d.tokens = name :: equal :: ts) (hnone : Terminal.newline ∉ kinds d.tokens) :
    ∃ e, e.tokens = ts ∧ d = assigned hname hequal e := by
  have hne : d.tokens ≠ [] := hd ▸ List.cons_ne_nil _ _
  obtain ⟨target, e, rfl⟩ := d.exists_eq_assignItem hne hnone
  have hsplit : target.tokens ++ e.tokens = name :: equal :: ts :=
    assignItem_tokens.symm.trans ((asProgram_tokens _).symm.trans hd)
  have he := target.eq_of_target_tokens_append hname hequal hsplit
  refine ⟨e, he, tokens_injective (by decide) (hd.trans ?_)⟩
  exact he ▸ assigned_tokens.symm

/-! ## Both ways of reading an expression -/

theorem Derivation.isTight_asText_iff {e : Derivation (.sub .expression)} :
    e.asText.IsTight ↔ e.IsTight := by
  refine ⟨fun htight => ?_, isTight_asText⟩
  obtain ⟨-, hrest⟩ := Derivations.isTight_of_cons (isTight_parts (by decide) htight)
  exact (Derivations.isTight_of_cons hrest).1

/-- What a text on one line is read as, as an expression. -/
theorem parse_expression_eq_ok_iff {n : Node} (h : '\n' ∉ text) :
    (parse .expression filename text).outcome = .ok n ↔ (lex text).rest = [] ∧
      ∃ e : Derivation (.sub .expression), e.tokens = (lex text).tokens ∧ e.IsTight ∧
        (e.understand filename).meaning = n := by
  rw [parse_eq_ok_iff]
  refine and_congr_right fun _ => ⟨?_, ?_⟩
  · rintro ⟨d, hd, htight, hn⟩
    have hnone : Terminal.newline ∉ kinds d.tokens := hd ▸ newline_not_mem_kinds_of_lex h
    obtain ⟨e, rfl⟩ := Derivation.eq_asText d hnone
    exact ⟨e, e.asText_tokens.symm.trans hd, Derivation.isTight_asText_iff.1 htight, hn⟩
  · rintro ⟨e, he, htight, hn⟩
    exact ⟨e.asText, e.asText_tokens.trans he, Derivation.isTight_asText htight, hn⟩

/-- What a text on one line is read as behind a name and an equals sign, as a program. -/
theorem parse_assigned_eq_ok_iff {n : Node} {ts : List Token} (h : '\n' ∉ text)
    (hts : (lex text.assigned).tokens = nameToken :: equalToken :: ts) :
    (parse .program filename text.assigned).outcome = .ok n ↔ (lex text.assigned).rest = [] ∧
      ∃ e : Derivation (.sub .expression), e.tokens = ts ∧ e.IsTight ∧
        ((Derivation.assigned nameToken_kind equalToken_kind e).understand filename).meaning =
          n := by
  have hassigned : '\n' ∉ text.assigned := by simpa [Text.assigned] using h
  rw [parse_eq_ok_iff]
  refine and_congr_right fun _ => ⟨?_, ?_⟩
  · rintro ⟨d, hd, htight, hn⟩
    have hnone : Terminal.newline ∉ kinds d.tokens :=
      hd ▸ newline_not_mem_kinds_of_lex hassigned
    obtain ⟨e, he, rfl⟩ :=
      Derivation.exists_eq_assigned nameToken_kind equalToken_kind (hd.trans hts) hnone
    have hwhole : (Derivation.assigned nameToken_kind equalToken_kind e).IsTight := htight
    exact ⟨e, he, Derivation.isTight_assigned.1 hwhole, hn⟩
  · rintro ⟨e, rfl, htight, hn⟩
    exact ⟨_, Derivation.assigned_tokens.trans hts.symm, Derivation.isTight_assigned.2 htight, hn⟩

/-- An expression is the same wherever its tokens are. -/
theorem Derivation.exists_bare (filename filename' : Option String)
    (e : Derivation (.sub .expression)) {ts : List Token} (hbare : bare ts = bare e.tokens)
    (htight : e.IsTight) : ∃ e' : Derivation (.sub .expression), e'.tokens = ts ∧ e'.IsTight ∧
      Node.equal (e'.understand filename').meaning (e.understand filename).meaning = true := by
  obtain ⟨e', rfl, hroles, hsame⟩ :=
    e.exists_alike filename filename' (labels_eq_of_bare hbare)
  exact ⟨e', rfl, isTight_of_bare (by decide) (hroles _) hbare.symm htight, hsame⟩

/-- A text on one line is an expression just when it may be assigned to a name, and the program that
assigns it is then one assignment of that expression. -/
theorem parse_assigned (filename filename' : Option String) (text : Text) (h : '\n' ∉ text) :
    ((∃ m, (parse .expression filename text).outcome = .ok m) ↔
        ∃ n, (parse .program filename' text.assigned).outcome = .ok n) ∧
      ∀ m n, (parse .expression filename text).outcome = .ok m →
        (parse .program filename' text.assigned).outcome = .ok n →
          n.equal (.program none (.nodes [.assign none
            (.node (.target none (.targetKind .bind) (.text "x"))) (.node m)])) = true := by
  -- `ts` are the tokens of the expression further on in the text, the same but for their places
  obtain ⟨ts, hts, hrest, hbare⟩ := lex_assigned text
  refine ⟨⟨?_, ?_⟩, ?_⟩
  · rintro ⟨m, hm⟩
    obtain ⟨hnil, e, he, htight, -⟩ := (parse_expression_eq_ok_iff h).1 hm
    obtain ⟨e', he', htight', -⟩ :=
      e.exists_bare filename filename' (hbare.trans (he ▸ rfl)) htight
    exact ⟨_, (parse_assigned_eq_ok_iff h hts).2 ⟨hrest.trans hnil, e', he', htight', rfl⟩⟩
  · rintro ⟨n, hn⟩
    obtain ⟨hnil, e, rfl, htight, -⟩ := (parse_assigned_eq_ok_iff h hts).1 hn
    obtain ⟨e', he', htight', -⟩ := e.exists_bare filename' filename hbare.symm htight
    exact ⟨_, (parse_expression_eq_ok_iff h).2 ⟨hrest.symm.trans hnil, e', he', htight', rfl⟩⟩
  · intro m n hm hn
    obtain ⟨-, e, he, htight, rfl⟩ := (parse_expression_eq_ok_iff h).1 hm
    obtain ⟨-, e', rfl, -, rfl⟩ := (parse_assigned_eq_ok_iff h hts).1 hn
    -- the derivation of the same tokens is that of the program, as there is only one
    obtain ⟨e'', he'', -, hequal⟩ :=
      e.exists_bare filename filename' (hbare.trans (he ▸ rfl)) htight
    obtain rfl : e'' = e' := Derivation.tokens_injective (by decide) he''
    exact Derivation.equal_assigned hequal

/-- The expression `(a)-b*c` may be assigned. -/
theorem parse_assigned_product : ∃ n,
    (parse .program none ['x', ' ', '=', ' ', '(', 'a', ')', '-', 'b', '*', 'c']).outcome =
        .ok n ∧
      n.equal (.program none (.nodes [.assign none
        (.node (.target none (.targetKind .bind) (.text "x"))) (.node productChain)])) = true := by
  obtain ⟨hiff, hequal⟩ :=
    parse_assigned none none ['(', 'a', ')', '-', 'b', '*', 'c'] (by decide)
  obtain ⟨n, hn⟩ := hiff.1 ⟨_, parse_product⟩
  exact ⟨n, hn, hequal _ _ parse_product hn⟩

end Spruce
