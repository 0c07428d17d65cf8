import Mathlib.Data.List.Basic
import Spruce.Grammar.Derivation

set_option autoImplicit false

/-!
# Parentheses

Every rule of the grammar closes the parentheses that it opens and no others, and so does every
derivation from a nonterminal (`Derivation.depthAfter_tokens`). A stretch from one part of such
tokens to another closes what it opens only if it leaves out no parentheses at either end
(`Clipped.join`).

Main definitions: `depthAfter` and `Clipped`.
-/

namespace Spruce

/-- The number of parentheses that are open after a token, given how many are open before it; none
if it closes one that was not open. -/
def Terminal.depth? : Nat → Terminal → Option Nat
  | n, .leftParen => some (n + 1)
  | 0, .rightParen => none
  | n + 1, .rightParen => some n
  | n, _ => some n

/-- The number of parentheses that are open after some tokens. -/
def depthAfter (n : Nat) (ts : List Token) : Option Nat :=
  ts.foldlM (fun n t => t.kind.depth? n) n

theorem depthAfter_append (n : Nat) (ts us : List Token) :
    depthAfter n (ts ++ us) = (depthAfter n ts).bind fun m => depthAfter m us :=
  List.foldlM_append

theorem depth_add {n m : Nat} {t : Terminal} (h : t.depth? n = some m) (k : Nat) :
    t.depth? (n + k) = some (m + k) := by
  cases t with
  | leftParen =>
      obtain rfl := Option.some.inj h
      exact congrArg some (Nat.add_right_comm _ _ _)
  | rightParen =>
      cases n with
      | zero => exact absurd h.symm (Option.some_ne_none m)
      | succ n =>
          obtain rfl := Option.some.inj h
          rw [Nat.add_right_comm]
          rfl
  | _ =>
      obtain rfl := Option.some.inj h
      rfl

/-- With more parentheses open before some tokens, as many more are open after them. -/
theorem depthAfter_add {n m : Nat} {ts : List Token} (h : depthAfter n ts = some m) (k : Nat) :
    depthAfter (n + k) ts = some (m + k) := by
  induction ts generalizing n with
  | nil =>
      obtain rfl := Option.some.inj h
      rfl
  | cons t ts ih =>
      obtain ⟨n', hfirst, hlater⟩ := Option.bind_eq_some_iff.1 h
      exact Option.bind_eq_some_iff.2 ⟨n' + k, depth_add hfirst k, ih hlater⟩

/-- The number of parentheses that are open after some symbols, if nonterminals close what they
open. -/
def Symbol.depth? (n : Nat) : Symbol → Option Nat
  | .tok t => t.depth? n
  | .sub _ => some n

/-- Every rule closes the parentheses that it opens. -/
theorem depth_parts {x : Nonterminal} (rule : Rule x) (n : Nat) :
    rule.parts.foldlM Symbol.depth? n = some n := by
  cases rule <;> rfl

mutual

/-- A derivation leaves as many parentheses open as its symbol. -/
theorem Derivation.depthAfter_tokens : {s : Symbol} → (d : Derivation s) → (n : Nat) →
    depthAfter n d.tokens = s.depth? n
  | _, .token _ _ rfl, _ => bind_pure _
  | _, .node rule parts, n => (parts.depthAfter_tokens n).trans (depth_parts rule n)

theorem Derivations.depthAfter_tokens : {ss : List Symbol} → (ds : Derivations ss) → (n : Nat) →
    depthAfter n ds.tokens = ss.foldlM Symbol.depth? n
  | _, .nil, _ => rfl
  | _, .cons first rest, n => by
      rw [Derivations.tokens, depthAfter_append, first.depthAfter_tokens n, List.foldlM_cons]
      exact congrArg _ (funext fun m => rest.depthAfter_tokens m)

end

/-! ## Stretches that leave out parentheses -/

theorem exists_depthAfter_of_append {n m : Nat} {ts us : List Token}
    (h : depthAfter n (ts ++ us) = some m) : ∃ k, depthAfter n ts = some k := by
  rw [depthAfter_append] at h
  obtain ⟨k, hk, -⟩ := Option.bind_eq_some_iff.1 h
  exact ⟨k, hk⟩

theorem depthAfter_cons_leftParen {n m : Nat} {t : Token} {ts : List Token}
    (ht : t.kind = .leftParen) (h : depthAfter n ts = some m) :
    depthAfter n (t :: ts) = some (m + 1) := by
  have hopened : depthAfter n (t :: ts) = depthAfter (n + 1) ts := by
    rw [depthAfter, List.foldlM_cons, ht]
    rfl
  rw [hopened, depthAfter_add h]

/-- Some tokens leave parentheses open if `inside`, and otherwise there are no others. -/
def IsEdge (inside : Bool) (ts others : List Token) : Prop :=
  if inside then ∃ n, depthAfter 0 ts = some (n + 1) else others = []

theorem IsEdge.prepend {inside : Bool} {ts others vs : List Token} (h : IsEdge inside ts others)
    (hvs : depthAfter 0 vs = some 0) : IsEdge inside (vs ++ ts) others := by
  cases inside with
  | false => exact h
  | true =>
      obtain ⟨n, hn⟩ := h
      exact ⟨n, by rw [depthAfter_append, hvs, Option.bind_some, hn]⟩

/-- A stretch of some tokens that starts where they start or inside of parentheses, as `first` says,
and that ends where they end or inside of parentheses, as `last` says. -/
inductive Clipped (first last : Bool) (ts us : List Token) : Prop where
  | intro (before after : List Token) (htokens : ts = before ++ (us ++ after))
      (hfirst : IsEdge first before before) (hlast : IsEdge last (before ++ us) after)

namespace Clipped

variable {first last first' last' : Bool} {ts ts' us us' : List Token}

theorem refl (ts : List Token) : Clipped false false ts ts :=
  .intro [] [] (List.append_nil ts).symm rfl rfl

/-- A stretch that starts and ends where the tokens do is all of them. -/
theorem eq (h : Clipped false false ts us) : us = ts := by
  obtain ⟨before, after, rfl, hfirst, hlast⟩ := h
  obtain rfl : before = [] := hfirst
  obtain rfl : after = [] := hlast
  exact (List.append_nil us).symm

theorem isInfix (h : Clipped first last ts us) : us <:+: ts := by
  obtain ⟨before, after, rfl, -, -⟩ := h
  exact ⟨before, after, List.append_assoc _ _ _⟩

/-- With parentheses around the tokens a stretch starts and ends inside of parentheses. -/
theorem parenthesise {t t' : Token} (h : Clipped first last ts us) (ht : t.kind = .leftParen)
    (hts : depthAfter 0 ts = some 0) : Clipped true true (t :: (ts ++ [t'])) us := by
  obtain ⟨before, after, rfl, -, -⟩ := h
  obtain ⟨n, hn⟩ := exists_depthAfter_of_append hts
  rw [← List.append_assoc] at hts
  obtain ⟨m, hm⟩ := exists_depthAfter_of_append hts
  refine .intro (t :: before) (after ++ [t']) ?_ ⟨n, depthAfter_cons_leftParen ht hn⟩
    ⟨m, depthAfter_cons_leftParen ht hm⟩
  simp only [List.cons_append, List.append_assoc]

/-- From a stretch of one part of some tokens to a stretch of another is a stretch of all, which
closes the parentheses that it opens only if it starts and ends where the tokens do. -/
theorem join {between : List Token} (h : Clipped first last ts us)
    (h' : Clipped first' last' ts' us') (hts : depthAfter 0 ts = some 0)
    (hbetween : depthAfter 0 between = some 0) :
    ∃ mid, Clipped first last' (ts ++ (between ++ ts')) (us ++ (mid ++ us')) ∧
      (depthAfter 0 (us ++ (mid ++ us')) = some 0 → first = false ∧ last' = false) := by
  obtain ⟨before, after, rfl, hfirst, -⟩ := h
  obtain ⟨before', after', rfl, -, hlast⟩ := h'
  have hfront : depthAfter 0 (before ++ (us ++ after) ++ between) = some 0 := by
    rw [depthAfter_append, hts, Option.bind_some, hbetween]
  have hwhole := hlast.prepend hfront
  have hassoc : before ++ (us ++ after) ++ between ++ (before' ++ us') =
      before ++ (us ++ (after ++ (between ++ before') ++ us')) := by
    simp only [List.append_assoc]
  rw [hassoc] at hwhole
  refine ⟨after ++ (between ++ before'), .intro before after' ?_ hfirst hwhole, fun hus => ?_⟩
  · simp only [List.append_assoc]
  · cases first with
    -- the parenthesis that it starts inside of is closed within the first part
    | true =>
        obtain ⟨n, hn⟩ := hfirst
        rw [List.append_assoc after, ← List.append_assoc us] at hus
        obtain ⟨m, hm⟩ := exists_depthAfter_of_append hus
        have hclosed := depthAfter_add hm (n + 1)
        rw [depthAfter_append, hn, Option.bind_some, ← Nat.zero_add (n + 1), hclosed] at hts
        exact absurd (Option.some.inj hts) (Nat.succ_ne_zero _)
    | false =>
        obtain rfl : before = [] := hfirst
        cases last' with
        | true =>
            obtain ⟨n, hn⟩ := hwhole
            exact absurd (Option.some.inj (hn.symm.trans hus)) (Nat.succ_ne_zero n)
        | false => exact ⟨rfl, rfl⟩

end Clipped

end Spruce
