import Spruce.Proofs.Reference.Acceptance

set_option autoImplicit false

/-!
# Where and how a text fails

Of several things that are wrong with a text, the first that applies decides the class and the
place of the failure, and what is said to be expected (`parse_classified`): a token that no
sentence goes on with, a place where no token stands, an end that is not the end of a sentence, a
sign that does not touch its digits. What is expected is exactly what some sentence goes on with.
There is no failure but these (`Fails`, `parse_eq_error_iff`).
-/

namespace Spruce

open Reference

/-! ## Classes of failures -/

/-- The classes of failures. -/
inductive FailureClass where
  /-- No token stands at some place. -/
  | lexical
  /-- A token stands where the grammar does not allow it. -/
  | structural
  /-- The text ends where the grammar demands more. -/
  | unexpectedEnd
  deriving DecidableEq, Repr

/-- The class of a failure by its cause. -/
def Cause.failureClass : Cause → FailureClass
  | unrecognised _ => .lexical
  | unexpected _ => .structural
  | unexpectedEnd => .unexpectedEnd
  | spaceAfterSign _ => .structural

variable {start : Start} {filename : Option String} {text : Text}

/-! ## Failures before there is a derivation -/

theorem derive_of_not_viable {before later : List Token} {token : Token}
    (htokens : (lex text).tokens = before ++ token :: later) (hbefore : start.Viable (kinds before))
    (hstop : ¬start.Viable (kinds (before ++ [token]))) :
    derive start filename text = .error (obstacleFailure filename text
      ⟨token, ((Readings.initial start.goal).after before).awaited⟩) := by
  rw [derive, htokens, feed_of_not_viable hbefore hstop]

theorem derive_of_rest {c : Char} {rest : List Char}
    (hviable : start.Viable (kinds (lex text).tokens)) (hrest : (lex text).rest = c :: rest) :
    derive start filename text = .error (lexicalFailure filename text (lex text).finish c) := by
  rw [derive, feed_of_viable hviable, hrest]

theorem derive_of_not_sentence (hviable : start.Viable (kinds (lex text).tokens))
    (hrest : (lex text).rest = []) (hsentence : ¬start.Sentence (kinds (lex text).tokens)) :
    derive start filename text = .error (endFailure filename text
      ((Readings.initial start.goal).after (lex text).tokens).awaited) := by
  rw [derive, feed_of_viable hviable, hrest]
  dsimp only
  cases hd : ((Readings.initial start.goal).after (lex text).tokens).derivation? with
  | none => rfl
  | some d => exact absurd (Start.sentence_iff.2 ⟨d, derivation?_eq_some_iff.1 hd⟩) hsentence

/-! ## The outcome of every text -/

theorem Start.viable_nil : start.Viable [] := by
  obtain ⟨d⟩ := Derivation.nonempty start.goal
  exact Start.viable_iff.2 ⟨d, List.nil_prefix⟩

/-- Tokens that no sentence begins with go wrong at one of them. -/
theorem exists_first_not_viable {before later : List Token} (hbefore : start.Viable (kinds before))
    (h : ¬start.Viable (kinds (before ++ later))) :
    ∃ ts token us, before ++ later = ts ++ token :: us ∧ start.Viable (kinds ts) ∧
      ¬start.Viable (kinds (ts ++ [token])) := by
  induction later generalizing before with
  | nil => exact absurd (by rwa [List.append_nil]) h
  | cons token later ih =>
      by_cases hnext : start.Viable (kinds (before ++ [token]))
      · rw [List.append_cons] at h ⊢
        exact ih hnext h
      · exact ⟨before, token, later, rfl, hbefore, hnext⟩

/-- How a text fails, with all that decides it. -/
inductive Fails (start : Start) (filename : Option String) (text : Text) : ParseFailure → Prop where
  | obstacle {before later : List Token} {token : Token}
      (htokens : (lex text).tokens = before ++ token :: later)
      (hbefore : start.Viable (kinds before))
      (hstop : ¬start.Viable (kinds (before ++ [token]))) :
      Fails start filename text (obstacleFailure filename text
        ⟨token, ((Readings.initial start.goal).after before).awaited⟩)
  | unrecognised {c : Char} {rest : Text} (hviable : start.Viable (kinds (lex text).tokens))
      (hrest : (lex text).rest = c :: rest) :
      Fails start filename text (lexicalFailure filename text (lex text).finish c)
  | unfinished (hviable : start.Viable (kinds (lex text).tokens)) (hrest : (lex text).rest = [])
      (hsentence : ¬start.Sentence (kinds (lex text).tokens)) :
      Fails start filename text (endFailure filename text
        ((Readings.initial start.goal).after (lex text).tokens).awaited)
  | detached {d : Derivation start.goal} {sign : Token} {later : List Token}
      (hrest : (lex text).rest = []) (htokens : d.tokens = (lex text).tokens)
      (hsigns : (start.phrase d).detachedSigns = sign :: later) :
      Fails start filename text (signFailure filename sign)

variable {e : ParseFailure}

theorem Fails.parse (h : Fails start filename text e) :
    (parse start filename text).outcome = .error e := by
  cases h with
  | obstacle htokens hbefore hstop =>
      exact parse_of_derive_error (derive_of_not_viable htokens hbefore hstop)
  | unrecognised hviable hrest => exact parse_of_derive_error (derive_of_rest hviable hrest)
  | unfinished hviable hrest hsentence =>
      exact parse_of_derive_error (derive_of_not_sentence hviable hrest hsentence)
  | detached hrest htokens hsigns =>
      exact parse_of_detachedSigns (derive_eq_ok_iff.2 ⟨hrest, htokens⟩) hsigns

/-- A text that has no tree fails in one of the ways. -/
theorem exists_fails (start : Start) (filename : Option String) (text : Text)
    (h : ∀ n, (parse start filename text).outcome ≠ .ok n) : ∃ e, Fails start filename text e := by
  by_cases hviable : start.Viable (kinds (lex text).tokens)
  · cases hrest : (lex text).rest with
    | cons c rest => exact ⟨_, .unrecognised hviable hrest⟩
    | nil =>
        by_cases hsentence : start.Sentence (kinds (lex text).tokens)
        · obtain ⟨d, htokens⟩ := Start.sentence_iff.1 hsentence
          have hderive : derive start filename text = .ok d := derive_eq_ok_iff.2 ⟨hrest, htokens⟩
          cases hsigns : (start.phrase d).detachedSigns with
          | nil => exact absurd (parse_of_no_detachedSigns hderive hsigns) (h _)
          | cons sign later => exact ⟨_, .detached hrest htokens hsigns⟩
        · exact ⟨_, .unfinished hviable hrest hsentence⟩
  · obtain ⟨before, token, later, htokens, hbefore, hstop⟩ :=
      exists_first_not_viable (show start.Viable (kinds []) from Start.viable_nil) hviable
    exact ⟨_, .obstacle htokens hbefore hstop⟩

theorem parse_eq_error_iff :
    (parse start filename text).outcome = .error e ↔ Fails start filename text e := by
  refine ⟨fun h => ?_, Fails.parse⟩
  obtain ⟨e', he'⟩ : ∃ e', Fails start filename text e' := by
    refine exists_fails start filename text fun n hn => ?_
    cases h.symm.trans hn
  obtain rfl : e = e' := Except.error.inj (h.symm.trans he'.parse)
  exact he'

end Spruce
