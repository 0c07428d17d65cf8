import Spruce.Proofs.Reference.Meaning
import Spruce.Proofs.Reference.Sentences
import Spruce.Proofs.Reference.Signs

set_option autoImplicit false

/-!
# The parser accepts the language of the reference grammar

A text is accepted just when it is cut into tokens to its end, its tokens are those of a phrase of
the reference grammar, and no sign of a number in that phrase is detached from its digits. The tree
is then that of the phrase (`parse_accepts_language`).

A derivation is found just when there is one (`derive_eq_ok_iff`): the readings of tokens keep
every pending derivation, so that none is lost, and as the grammar is unambiguous it does not
matter which of them comes first.
-/

namespace Spruce

open Reference

variable {start : Start} {filename : Option String} {text : Text}

/-! ## Finding derivations -/

/-- Tokens that begin a sentence are read to the end. -/
theorem feed_of_viable {ts : List Token} (h : start.Viable (kinds ts)) :
    (Readings.initial start.goal).feed ts = .ok ((Readings.initial start.goal).after ts) := by
  cases hfeed : (Readings.initial start.goal).feed ts with
  | error o =>
      obtain ⟨before, later, rfl, -, hstop, -⟩ :=
        Readings.obstacle_of_feed Readings.initial_ne_nil hfeed
      have hfront : before ++ [o.token] <+: before ++ o.token :: later :=
        ⟨later, by rw [List.append_assoc, List.singleton_append]⟩
      -- the tokens up to the obstacle still begin a sentence
      obtain ⟨d, hd⟩ := Start.viable_iff.1 h
      exact absurd hstop (Readings.after_ne_nil_iff.2 ⟨d, hfront.trans hd⟩)
  | ok readings => rw [(Readings.after_of_feed Readings.initial_ne_nil hfeed).1]

/-- Tokens are read up to the first that no sentence goes on with. -/
theorem feed_of_not_viable {before later : List Token} {token : Token}
    (hbefore : start.Viable (kinds before)) (hstop : ¬start.Viable (kinds (before ++ [token]))) :
    (Readings.initial start.goal).feed (before ++ token :: later) =
      .error ⟨token, ((Readings.initial start.goal).after before).awaited⟩ := by
  have hfront : before ++ [token] <+: before ++ token :: later :=
    ⟨later, by rw [List.append_assoc, List.singleton_append]⟩
  cases hfeed : (Readings.initial start.goal).feed (before ++ token :: later) with
  | ok readings =>
      obtain ⟨rfl, hne⟩ := Readings.after_of_feed Readings.initial_ne_nil hfeed
      obtain ⟨d, hd⟩ := Readings.after_ne_nil_iff.1 hne
      exact absurd (Start.viable_iff.2 ⟨d, hfront.trans hd⟩) hstop
  | error o =>
      obtain ⟨before', later', hsplit, hbefore', hstop', hexpected⟩ :=
        Readings.obstacle_of_feed Readings.initial_ne_nil hfeed
      -- Of the two places where reading stops neither can be before the other.
      have hfront' : before' ++ [o.token] <+: before ++ token :: later :=
        ⟨later', by rw [hsplit, List.append_assoc, List.singleton_append]⟩
      have hlength : before.length = before'.length := by
        rcases Nat.lt_trichotomy before.length before'.length with hlt | heq | hgt
        · have hshorter : before ++ [token] <+: before' :=
            List.prefix_of_prefix_length_le hfront ⟨_, hsplit.symm⟩
              (by rw [List.length_append]; exact hlt)
          obtain ⟨d, hd⟩ := Readings.after_ne_nil_iff.1 hbefore'
          exact absurd (Start.viable_iff.2 ⟨d, hshorter.trans hd⟩) hstop
        · exact heq
        · have hshorter : before' ++ [o.token] <+: before :=
            List.prefix_of_prefix_length_le hfront' ⟨_, rfl⟩
              (by rw [List.length_append]; exact hgt)
          obtain ⟨d, hd⟩ := Start.viable_iff.1 hbefore
          exact absurd hstop' (Readings.after_ne_nil_iff.2 ⟨d, hshorter.trans hd⟩)
      obtain ⟨rfl, hrest⟩ := List.append_inj hsplit hlength
      obtain ⟨rfl, -⟩ := List.cons.inj hrest
      rw [← hexpected]

/-- Tokens that are read completely are those of the one derivation that is found. -/
theorem derivation?_eq_some_iff {ts : List Token} {d : Derivation start.goal} :
    ((Readings.initial start.goal).after ts).derivation? = some d ↔ d.tokens = ts := by
  constructor
  · exact Readings.tokens_of_derivation?_after
  · rintro rfl
    obtain ⟨d', hd'⟩ := Option.isSome_iff_exists.1 (Readings.derivation?_after_isSome d)
    have htokens : d'.tokens = d.tokens := Readings.tokens_of_derivation?_after hd'
    rw [hd', Start.derivation_eq_of_tokens htokens]

/-- A derivation is found just when the text is cut to its end and has one. -/
theorem derive_eq_ok_iff {d : Derivation start.goal} :
    derive start filename text = .ok d ↔ (lex text).rest = [] ∧ d.tokens = (lex text).tokens := by
  constructor
  · intro h
    rw [derive] at h
    cases hfeed : (Readings.initial start.goal).feed (lex text).tokens with
    | error o => simp [hfeed] at h
    | ok readings =>
        cases hrest : (lex text).rest with
        | cons c rest => simp [hfeed, hrest] at h
        | nil =>
            obtain ⟨rfl, -⟩ := Readings.after_of_feed Readings.initial_ne_nil hfeed
            refine ⟨rfl, derivation?_eq_some_iff.1 ?_⟩
            cases hd : ((Readings.initial start.goal).after (lex text).tokens).derivation? with
            | none => simp [hfeed, hrest, hd] at h
            | some d' =>
                obtain rfl : d' = d := by simpa [hfeed, hrest, hd] using h
                rfl
  · rintro ⟨hrest, htokens⟩
    have hviable : start.Viable (kinds (lex text).tokens) :=
      Start.viable_iff.2 ⟨d, htokens ▸ List.prefix_rfl⟩
    rw [derive]
    simp [feed_of_viable hviable, hrest, derivation?_eq_some_iff.2 htokens]

/-! ## Parsing -/

/-- A text that has no derivation fails as finding one does. -/
theorem parse_of_derive_error {e : ParseFailure} (h : derive start filename text = .error e) :
    (parse start filename text).outcome = .error e := by
  rw [parse, h]
  rfl

theorem remarks_signs_phrase {d : Derivation start.goal} :
    (d.understand filename).remarks.filterMap Remark.sign? = (start.phrase d).detachedSigns := by
  cases start <;> exact d.remarks_signs

/-- A text with a detached sign in its derivation fails at the first. -/
theorem parse_of_detachedSigns {d : Derivation start.goal} {sign : Token} {later : List Token}
    (hd : derive start filename text = .ok d)
    (hsigns : (start.phrase d).detachedSigns = sign :: later) :
    (parse start filename text).outcome = .error (signFailure filename sign) := by
  have hheed : (heed filename (d.understand filename).remarks).outcome =
      .error (signFailure filename sign) :=
    heed_eq_error_iff.2 ⟨sign, later, remarks_signs_phrase.trans hsigns, rfl⟩
  rw [parse, hd]
  simp [bind, Diagnosed.andThen, hheed]

/-- A text without detached signs in its derivation has a tree. -/
theorem parse_of_no_detachedSigns {d : Derivation start.goal}
    (hd : derive start filename text = .ok d) (hsigns : (start.phrase d).detachedSigns = []) :
    (parse start filename text).outcome = .ok (start.node (d.understand filename).meaning) := by
  have hheed : (heed filename (d.understand filename).remarks).outcome = .ok () :=
    heed_eq_ok_iff.2 (remarks_signs_phrase.trans hsigns)
  rw [parse, hd]
  simp [bind, Diagnosed.andThen, hheed, pure, Diagnosed.succeed]

/-- A text has a tree just when it is cut to its end, its tokens have a derivation, and no sign is
detached in it. -/
theorem parse_eq_ok_iff {n : Node} :
    (parse start filename text).outcome = .ok n ↔
      (lex text).rest = [] ∧ ∃ d : Derivation start.goal, d.tokens = (lex text).tokens ∧
        (start.phrase d).detachedSigns = [] ∧ start.node (d.understand filename).meaning = n := by
  constructor
  · intro h
    cases hd : derive start filename text with
    | error e => simp [parse_of_derive_error hd] at h
    | ok d =>
        obtain ⟨hrest, htokens⟩ := derive_eq_ok_iff.1 hd
        refine ⟨hrest, d, htokens, ?_⟩
        cases hsigns : (start.phrase d).detachedSigns with
        | nil => exact ⟨rfl, by simpa [parse_of_no_detachedSigns hd hsigns] using h⟩
        | cons sign later => simp [parse_of_detachedSigns hd hsigns] at h
  · rintro ⟨hrest, d, htokens, hsigns, rfl⟩
    exact parse_of_no_detachedSigns (derive_eq_ok_iff.2 ⟨hrest, htokens⟩) hsigns

/-- A text is accepted just when it is cut to its end, its tokens are those of a phrase of the
reference grammar, and no sign of a number in it is detached; its tree is then that of the
phrase. -/
theorem parse_accepts_language (start : Start) (filename : Option String) (text : Text) :
    ((∃ n, (parse start filename text).outcome = .ok n) ↔
      (lex text).rest = [] ∧ ∃ phrase : Phrase (.construct start.construct),
        phrase.tokens = (lex text).tokens ∧ phrase.detachedSigns = []) ∧
    ∀ n, (parse start filename text).outcome = .ok n ↔
      (lex text).rest = [] ∧ ∃ phrase : Phrase (.construct start.construct),
        phrase.tokens = (lex text).tokens ∧ phrase.detachedSigns = [] ∧
          phrase.tree filename = some n := by
  have hspelled : ∀ t ∈ (lex text).tokens, t.IsSpelled := lexFrom_isSpelled _ _
  constructor
  · constructor
    · rintro ⟨n, h⟩
      obtain ⟨hrest, d, htokens, hsigns, -⟩ := parse_eq_ok_iff.1 h
      exact ⟨hrest, start.phrase d, (Start.phrase_tokens d).trans htokens, hsigns⟩
    · rintro ⟨hrest, phrase, htokens, hsigns⟩
      obtain ⟨d, rfl⟩ := Start.exists_phrase_eq phrase
      rw [Start.phrase_tokens] at htokens
      exact ⟨_, parse_eq_ok_iff.2 ⟨hrest, d, htokens, hsigns, rfl⟩⟩
  · intro n
    constructor
    · intro h
      obtain ⟨hrest, d, htokens, hsigns, rfl⟩ := parse_eq_ok_iff.1 h
      exact ⟨hrest, start.phrase d, (Start.phrase_tokens d).trans htokens, hsigns,
        start.tree_phrase d (htokens ▸ hspelled)⟩
    · rintro ⟨hrest, phrase, htokens, hsigns, htree⟩
      obtain ⟨d, rfl⟩ := Start.exists_phrase_eq phrase
      rw [Start.phrase_tokens] at htokens
      rw [start.tree_phrase d (htokens ▸ hspelled)] at htree
      exact parse_eq_ok_iff.2 ⟨hrest, d, htokens, hsigns, Option.some.inj htree⟩

end Spruce
