import Spruce.Parse
import Spruce.Proofs.Reference.Image

set_option autoImplicit false

/-!
# Signs that do not touch their digits

The remarks on a derivation name the detached signs of its phrase, in the order of the text
(`Derivation.remarks_signs`), so that the first of them is the one that is reported
(`heed_eq_ok_iff`, `heed_eq_error_iff`).
-/

namespace Spruce

open Reference

/-! ## Detached signs -/

/-- The detached sign that a remark is about, if it is about one. -/
def Remark.sign? : Remark → Option Token
  | warning _ => none
  | detachedSign sign => some sign

theorem Reference.Phrase.detachedSigns_eq_collect {p : Pattern} (phrase : Phrase p) :
    phrase.detachedSigns = phrase.collect (fun _ => []) fun n => some (detachedSign n.tokens) := by
  induction phrase with
  | token t token kind_eq => rfl
  | construct c phrase ih => cases c <;> first | rfl | exact ih
  | both first second ihFirst ihSecond => rw [detachedSigns, collect, ihFirst, ihSecond]
  | left phrase ih => exact ih
  | right phrase ih => exact ih
  | absent => rfl
  | present phrase ih => exact ih
  | done => rfl
  | more first later ihFirst ihLater => rw [detachedSigns, collect, ihFirst, ihLater]

/-- Detached signs are tokens of the phrase. -/
theorem Reference.Phrase.detachedSigns_subset {p : Pattern} (phrase : Phrase p) :
    phrase.detachedSigns ⊆ phrase.tokens := by
  have hsign (ts : List Token) : detachedSign ts ⊆ ts := by
    intro t ht
    unfold detachedSign at ht
    split at ht
    · split at ht
      · exact absurd ht List.not_mem_nil
      · exact List.mem_cons.2 (.inl (List.mem_singleton.1 ht))
    · exact absurd ht List.not_mem_nil
  have hboth {ts us signs signs' : List Token} (h : signs ⊆ ts) (h' : signs' ⊆ us) :
      signs ++ signs' ⊆ ts ++ us :=
    List.append_subset.2
      ⟨List.subset_append_of_subset_left us h, List.subset_append_of_subset_right ts h'⟩
  induction phrase with
  | token t token kind_eq => exact List.nil_subset _
  | construct c phrase ih => cases c <;> first | exact ih | exact hsign _
  | both first second ihFirst ihSecond => exact hboth ihFirst ihSecond
  | left phrase ih => exact ih
  | right phrase ih => exact ih
  | absent => exact List.nil_subset _
  | present phrase ih => exact ih
  | done => exact List.nil_subset _
  | more first later ihFirst ihLater => exact hboth ihFirst ihLater

/-- The detached signs of some phrases, from left to right. -/
def Images.detachedSigns {ss : List Symbol} (images : Images ss) : List Token :=
  images.collect (fun _ => []) fun n => some (Phrase.detachedSign n.tokens)

theorem Images.detachedSigns_cons {s : Symbol} {ss : List Symbol} (images : Images (s :: ss)) :
    images.detachedSigns = images.1.detachedSigns ++ Images.detachedSigns images.2 := by
  rw [Phrase.detachedSigns_eq_collect]
  match ss, images with
  | [], _ => exact (List.append_nil _).symm
  | _ :: _, _ => rfl

/-- The phrase that a rule makes has the detached signs of its parts, unless it is a number. -/
theorem ruleImage_detachedSigns {x : Nonterminal} (hx : x ≠ .number) (rule : Rule x)
    (images : Images rule.parts) :
    (ruleImage rule images).detachedSigns = images.detachedSigns := by
  rw [Phrase.detachedSigns_eq_collect]
  exact ruleImage_collect hx rule images

/-- Only numbers are remarked upon for their signs. -/
theorem ruleRemarks_signs {x : Nonterminal} (hx : x ≠ .number) (rule : Rule x)
    (meanings : Meanings rule.parts) : (ruleRemarks rule meanings).filterMap Remark.sign? = [] := by
  cases rule with
  | functionDecl =>
      show ((repeatedNames _).map _).filterMap Remark.sign? = []
      rw [List.filterMap_map]
      exact List.filterMap_eq_nil_iff.2 fun _ _ => rfl
  | typeDecl =>
      show ((repeatedNames _).map _).filterMap Remark.sign? = []
      rw [List.filterMap_map]
      exact List.filterMap_eq_nil_iff.2 fun _ _ => rfl
  | unsignedNumber | signedNumber => exact absurd rfl hx
  | _ => rfl

variable {filename : Option String}

/-- A number is remarked upon if its sign is detached. -/
theorem Derivation.number_signs (d : Derivation (.sub .number)) :
    (d.understand filename).remarks.filterMap Remark.sign? = d.phrase.detachedSigns := by
  match d with
  | .node .unsignedNumber (.cons (.token _ _ _) .nil) => rfl
  | .node .signedNumber (.cons (.node .plusSign (.cons (.token _ sign _) .nil))
      (.cons (.token _ digits _) .nil)) =>
      show (if sign.stop = digits.start.offset then [] else [Remark.detachedSign sign]).filterMap
          Remark.sign? = if sign.stop = digits.start.offset then [] else [sign]
      split <;> rfl
  | .node .signedNumber (.cons (.node .minusSign (.cons (.token _ sign _) .nil))
      (.cons (.token _ digits _) .nil)) =>
      show (if sign.stop = digits.start.offset then [] else [Remark.detachedSign sign]).filterMap
          Remark.sign? = if sign.stop = digits.start.offset then [] else [sign]
      split <;> rfl

mutual

/-- The remarks on a derivation name the detached signs of its phrase. -/
theorem Derivation.remarks_signs : {s : Symbol} → (d : Derivation s) →
    (d.understand filename).remarks.filterMap Remark.sign? = d.phrase.detachedSigns
  | _, .token _ _ _ => rfl
  | .sub x, .node rule parts => by
      by_cases hx : x = .number
      · subst hx
        exact (Derivation.node rule parts).number_signs
      · rw [Derivation.understand, List.filterMap_append, ruleRemarks_signs hx, List.append_nil,
          parts.remarks_signs]
        exact (ruleImage_detachedSigns hx rule parts.phrases).symm

theorem Derivations.remarks_signs : {ss : List Symbol} → (ds : Derivations ss) →
    (ds.understand filename).remarks.filterMap Remark.sign? = ds.phrases.detachedSigns
  | _, .nil => rfl
  | _, .cons first rest => by
      rw [Derivations.understand, List.filterMap_append, first.remarks_signs, rest.remarks_signs,
        Images.detachedSigns_cons]
      rfl

end

/-! ## The sign that is reported -/

/-- Remarks are heeded to the end if no sign is detached. -/
theorem heed_eq_ok_iff {remarks : List Remark} :
    (heed filename remarks).outcome = .ok () ↔ remarks.filterMap Remark.sign? = [] := by
  induction remarks with
  | nil => exact ⟨fun _ => rfl, fun _ => rfl⟩
  | cons remark remarks ih =>
      cases remark with
      | warning w => exact ih
      | detachedSign sign => simp [heed, Diagnosed.fail, Remark.sign?]

/-- The first detached sign is reported. -/
theorem heed_eq_error_iff {remarks : List Remark} {e : ParseFailure} :
    (heed filename remarks).outcome = .error e ↔
      ∃ sign later, remarks.filterMap Remark.sign? = sign :: later ∧
        e = signFailure filename sign := by
  induction remarks with
  | nil => simp [heed, pure, Diagnosed.succeed]
  | cons remark remarks ih =>
      cases remark with
      | warning w => exact ih
      | detachedSign sign => simp [heed, Diagnosed.fail, Remark.sign?, eq_comm]

end Spruce
