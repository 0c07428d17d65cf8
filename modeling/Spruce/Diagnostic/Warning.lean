import Spruce.Source.Position

set_option autoImplicit false

/-!
# Warnings

What is allowed but probably not meant: a parameter that is named twice, or
comparisons in a chain without parentheses. Work that may warn gives its warnings
together with its outcome, so that they are kept when it fails.

Main definitions: `Warning` and its wording `Warning.message`; `Diagnosed`, the
outcome of work that may warn and may fail.
-/

namespace Spruce

/-! ## Warnings -/

/-- Something allowed but probably not meant. -/
inductive Warning where
  | duplicateParameter (parameter function : String)
  | duplicateTypeParameter (parameter type : String)
  | chainedComparisons (span : Option Span)
  deriving DecidableEq, Repr

/-- The place that a message about a span names. -/
def spanPlace : Option Span → String
  | none => "an unknown location"
  | some s => s.located

/-- The wording of a warning. -/
def Warning.message : Warning → String
  | duplicateParameter parameter function =>
      "Parameter " ++ parameter ++ " appears more than once in function " ++ function
  | duplicateTypeParameter parameter type =>
      "Type parameter " ++ parameter ++ " appears more than once in type " ++ type
  | chainedComparisons span =>
      "Comparisons chained without parentheses in the expression at " ++ spanPlace span ++
        " will be grouped from left to right"

/-! ## Outcomes with warnings -/

/-- What came of some work, with the warnings issued in its course. -/
structure Diagnosed (ε α : Type) where
  warnings : List Warning
  outcome : Except ε α

namespace Diagnosed

variable {ε α β : Type}

/-- Success without a warning. -/
def succeed (a : α) : Diagnosed ε α := ⟨[], .ok a⟩

/-- Failure without a warning. -/
def fail (e : ε) : Diagnosed ε α := ⟨[], .error e⟩

/-- An outcome without a warning. -/
def ofExcept (outcome : Except ε α) : Diagnosed ε α := ⟨[], outcome⟩

/-- Warnings and nothing else. -/
def warn (ws : List Warning) : Diagnosed ε Unit := ⟨ws, .ok ()⟩

/-- Work that goes on from the result of other work, if there is one. -/
def andThen (x : Diagnosed ε α) (f : α → Diagnosed ε β) : Diagnosed ε β :=
  match x.outcome with
  | .error e => ⟨x.warnings, .error e⟩
  | .ok a =>
      let later := f a
      ⟨x.warnings ++ later.warnings, later.outcome⟩

instance : Monad (Diagnosed ε) where
  pure := succeed
  bind := andThen

theorem id_map (x : Diagnosed ε α) : id <$> x = x := by
  obtain ⟨ws, e | a⟩ := x <;> simp [Functor.map, andThen, succeed]

theorem pure_bind (a : α) (f : α → Diagnosed ε β) : (pure a >>= f) = f a := by
  simp [pure, bind, andThen, succeed]

theorem bind_assoc {γ : Type} (x : Diagnosed ε α) (f : α → Diagnosed ε β)
    (g : β → Diagnosed ε γ) : (x >>= f) >>= g = x >>= fun a => f a >>= g := by
  obtain ⟨ws, e | a⟩ := x
  · rfl
  · simp only [bind, andThen]
    cases (f a).outcome <;> simp

instance : LawfulMonad (Diagnosed ε) :=
  LawfulMonad.mk' (Diagnosed ε) id_map pure_bind bind_assoc

/-- What comes of work that goes on from other work is what comes of going on from the other's
outcome. -/
theorem outcome_bind_eq (x : Diagnosed ε α) (f : α → Diagnosed ε β) :
    (x >>= f).outcome = x.outcome >>= fun a => (f a).outcome := by
  obtain ⟨ws, e | a⟩ := x <;> rfl

/-- What comes of work that goes on after other work has succeeded. -/
theorem outcome_bind {x : Diagnosed ε α} {a : α} (h : x.outcome = .ok a) (f : α → Diagnosed ε β) :
    (x >>= f).outcome = (f a).outcome := by
  simp [bind, andThen, h]

/-- The warnings of work that goes on after other work has succeeded come after the other's. -/
theorem warnings_bind {x : Diagnosed ε α} {a : α} (h : x.outcome = .ok a)
    (f : α → Diagnosed ε β) : (x >>= f).warnings = x.warnings ++ (f a).warnings := by
  simp [bind, andThen, h]

/-- Work is done without a warning if none is issued in either part. -/
theorem warnings_bind_eq_nil {x : Diagnosed ε α} {f : α → Diagnosed ε β} (hx : x.warnings = [])
    (hf : ∀ a, (f a).warnings = []) : (x >>= f).warnings = [] := by
  obtain ⟨ws, e | a⟩ := x
  · exact hx
  · rw [warnings_bind rfl, hx, hf]
    rfl

end Diagnosed

end Spruce
