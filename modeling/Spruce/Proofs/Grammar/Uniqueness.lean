import Spruce.Proofs.Grammar.Lookahead

set_option autoImplicit false

/-!
# Unique derivations

If the tokens of a text, read up to what may follow a nonterminal, always determine which rule a
derivation starts with (`Determined`), then derivations are determined by their tokens, and so is
the place where each ends (`Derivation.eq_of_tokens`). It is enough to know this for a family of
nonterminals whose rules need no others (`Closed`), so that expressions can be settled before what
is made of them.
-/

namespace Spruce

/-! ## Families of nonterminals -/

/-- The tokens of a rule of `x`, with what follows them, belong to no other rule of `x`. -/
def Determined (x : Nonterminal) : Prop :=
  ∀ (rule rule' : Rule x) (parts : Derivations rule.parts) (parts' : Derivations rule'.parts)
    (rest rest' : List Token), ahead rest ∈ x.follow → ahead rest' ∈ x.follow →
      parts.tokens ++ rest = parts'.tokens ++ rest' → rule = rule'

/-- The symbol is a token or a nonterminal of the family. -/
def Symbol.In (family : Nonterminal → Prop) : Symbol → Prop
  | .tok _ => True
  | .sub x => family x

/-- What may follow a symbol comes next; anything may follow a token. -/
def Symbol.FollowedBy (rest : List Token) : Symbol → Prop
  | .tok _ => True
  | .sub x => ahead rest ∈ x.follow

/-- The rules of a family need no nonterminals but those of the family. -/
def Closed (family : Nonterminal → Prop) : Prop :=
  ∀ (x : Nonterminal), family x → ∀ rule : Rule x, ∀ s ∈ rule.parts, s.In family

/-- Two rules that have something in common to start with. -/
def Overlap {x : Nonterminal} (rule rule' : Rule x) : Prop :=
  ∃ o ∈ lookahead x.follow rule.parts, o ∈ lookahead x.follow rule'.parts

instance {x : Nonterminal} (rule rule' : Rule x) : Decidable (Overlap rule rule') :=
  inferInstanceAs (Decidable (∃ o ∈ _, _))

/-- What may not come next does not. -/
theorem ahead_ne {after : List (Option Terminal)} {o : Option Terminal} {rest : List Token}
    (ho : o ∉ after) (hrest : ahead rest ∈ after) : ahead rest ≠ o := by
  rintro rfl
  exact ho hrest

/-- Rules with common tokens have something in common to start with. -/
theorem overlap_of_tokens {x : Nonterminal} {rule rule' : Rule x}
    (parts : Derivations rule.parts) (parts' : Derivations rule'.parts) {rest rest' : List Token}
    (hrest : ahead rest ∈ x.follow) (hrest' : ahead rest' ∈ x.follow)
    (h : parts.tokens ++ rest = parts'.tokens ++ rest') : Overlap rule rule' :=
  ⟨_, parts.ahead_mem hrest, h ▸ parts'.ahead_mem hrest'⟩

/-- The rules of a predictive nonterminal are determined by one token. -/
theorem determined_of_isPredictive {x : Nonterminal} (hx : x.isPredictive) : Determined x := by
  intro rule rule' parts parts' rest rest' hrest hrest' h
  obtain ⟨o, ho, ho'⟩ := overlap_of_tokens parts parts' hrest hrest' h
  exact lookahead_disjoint hx ho ho'

/-- Rules are determined that can be predicted from the tokens to come. -/
theorem determined_of_predict {x : Nonterminal} (predict : List Token → Rule x)
    (hpredict : ∀ (rule : Rule x) (parts : Derivations rule.parts) (rest : List Token),
      ahead rest ∈ x.follow → predict (parts.tokens ++ rest) = rule) : Determined x := by
  intro rule rule' parts parts' rest rest' hrest hrest' h
  calc rule = predict (parts.tokens ++ rest) := (hpredict rule parts rest hrest).symm
    _ = predict (parts'.tokens ++ rest') := by rw [h]
    _ = rule' := hpredict rule' parts' rest' hrest'

/-! ## From rules to derivations -/

mutual

/-- Derivations in a family of determined nonterminals are determined by their tokens, as are the
places where they end. -/
theorem Derivation.eq_of_tokens {family : Nonterminal → Prop} (hclosed : Closed family)
    (hdetermined : ∀ x, family x → Determined x) :
    {s : Symbol} → (d d' : Derivation s) → s.In family →
    {rest rest' : List Token} → s.FollowedBy rest → s.FollowedBy rest' →
      d.tokens ++ rest = d'.tokens ++ rest' → d = d' ∧ rest = rest'
  | _, .token t token kind_eq, .token _ token' kind_eq', _, rest, rest', _, _, h => by
      simp only [Derivation.tokens, List.cons_append, List.nil_append, List.cons.injEq] at h
      obtain ⟨rfl, rfl⟩ := h
      exact ⟨rfl, rfl⟩
  | _, .node (x := x) rule parts, .node rule' parts', hx, rest, rest', hrest, hrest', h => by
      -- the rules agree first, and only then do their parts have the same symbols
      obtain rfl : rule = rule' :=
        hdetermined x hx rule rule' parts parts' rest rest' hrest hrest' h
      obtain ⟨rfl, rfl⟩ := parts.eq_of_tokens hclosed hdetermined parts' (hclosed x hx rule)
        (followed_parts rule) hrest hrest' h
      exact ⟨rfl, rfl⟩

/-- The same for derivations of some symbols one after another. -/
theorem Derivations.eq_of_tokens {family : Nonterminal → Prop} (hclosed : Closed family)
    (hdetermined : ∀ x, family x → Determined x) : {ss : List Symbol} → (ds ds' : Derivations ss) →
    (∀ s ∈ ss, s.In family) → {after : List (Option Terminal)} → Followed after ss →
    {rest rest' : List Token} → ahead rest ∈ after → ahead rest' ∈ after →
      ds.tokens ++ rest = ds'.tokens ++ rest' → ds = ds' ∧ rest = rest'
  | _, .nil, .nil, _, _, _, _, _, _, _, h => ⟨rfl, h⟩
  | s :: ss, .cons first later, .cons first' later', hin, after, hfollowed, rest, rest', hrest,
      hrest', h => by
      simp only [Derivations.tokens, List.append_assoc] at h
      -- the first derivations end where something may follow that the later ones start with
      have hlater : Followed after ss ∧ s.FollowedBy (later.tokens ++ rest) ∧
          s.FollowedBy (later'.tokens ++ rest') := by
        cases s with
        | tok t => exact ⟨hfollowed, trivial, trivial⟩
        | sub x =>
            exact ⟨hfollowed.2, hfollowed.1 _ (later.ahead_mem hrest),
              hfollowed.1 _ (later'.ahead_mem hrest')⟩
      obtain ⟨hfollowed', hs, hs'⟩ := hlater
      obtain ⟨rfl, hrests⟩ := first.eq_of_tokens hclosed hdetermined first'
        (hin s List.mem_cons_self) hs hs' h
      obtain ⟨rfl, rfl⟩ := later.eq_of_tokens hclosed hdetermined later'
        (fun s' hs' => hin s' (List.mem_cons_of_mem _ hs')) hfollowed' hrest hrest' hrests
      exact ⟨rfl, rfl⟩

end

end Spruce
