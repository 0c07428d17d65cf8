import Spruce.Diagnostic.ParseFailure
import Spruce.Grammar.Meaning
import Spruce.Grammar.Reading

set_option autoImplicit false

/-!
# Parsing

A text is parsed as a whole program or as a lone expression. Of several things
that are wrong with it, the first that applies is reported: a token that nothing
goes on with; a place where no token stands; an end that comes too early; a sign
that does not touch its number. Warnings are about declarations that were
complete before the failure, and only the last kind of failure leaves any.

Main definitions: `Start`, `parse`, `parseProgram` and `parseExpression`.
-/

namespace Spruce

/-! ## Starting points -/

/-- What a text is read as. -/
inductive Start where
  | program
  | expression
  deriving DecidableEq, Repr

namespace Start

/-- The nonterminal that a whole text is derived from. -/
def nonterminal : Start → Nonterminal
  | program => .program
  | expression => .loneExpression

/-- The symbol that a whole text is derived from. -/
def goal (start : Start) : Symbol := .sub start.nonterminal

/-- The tree that a derivation of a whole text means. -/
def node : (start : Start) → start.goal.Meaning → Node
  | program, n => n
  | expression, n => n

end Start

/-! ## Failures -/

/-- The terminals that can start a token: all but the keywords, as a keyword
starts like any name. -/
def startingTerminals : List Terminal := Terminal.all.filter fun t => t ∉ Terminal.keywords

/-- The failure at a token that no reading goes on with. -/
def obstacleFailure (filename : Option String) (text : Text) (o : Obstacle) : ParseFailure :=
  ⟨.unexpected o.token.kind, o.token.start, o.expected,
    some (excerpt text o.token.start.offset), filename⟩

/-- The failure at a character that starts no token. -/
def lexicalFailure (filename : Option String) (text : Text) (p : Position) (c : Char) :
    ParseFailure :=
  ⟨.unrecognised c, p, startingTerminals, some (excerpt text p.offset), filename⟩

/-- The failure at the end of a text. -/
def endFailure (filename : Option String) (text : Text) (expected : List Terminal) :
    ParseFailure :=
  ⟨.unexpectedEnd, Position.origin.advance text, expected, none, filename⟩

/-- The failure at a sign that does not touch its number. -/
def signFailure (filename : Option String) (sign : Token) : ParseFailure :=
  ⟨.spaceAfterSign sign.text, sign.start, [.number], none, filename⟩

/-! ## Parsing -/

/-- The derivation of a whole text, by the first rule that applies to it. -/
def derive (start : Start) (filename : Option String) (text : Text) :
    Except ParseFailure (Derivation start.goal) :=
  let lexed := lex text
  match (Readings.initial start.goal).feed lexed.tokens with
  | .error obstacle => .error (obstacleFailure filename text obstacle)
  | .ok readings =>
    match lexed.rest with
    | c :: _ => .error (lexicalFailure filename text lexed.finish c)
    | [] =>
      match readings.derivation? with
      | none => .error (endFailure filename text readings.awaited)
      | some d => .ok d

/-- Warnings are issued in order up to the first sign that does not touch its
number. -/
def heed (filename : Option String) : List Remark → Diagnosed ParseFailure Unit
  | [] => pure ()
  | .warning w :: remarks => do
      Diagnosed.warn [w]
      heed filename remarks
  | .detachedSign sign :: _ => Diagnosed.fail (signFailure filename sign)

/-- The tree of a text. -/
def parse (start : Start) (filename : Option String) (text : Text) :
    Diagnosed ParseFailure Node :=
  match derive start filename text with
  | .error e => Diagnosed.fail e
  | .ok d => do
      let understood := d.understand filename
      heed filename understood.remarks
      pure (start.node understood.meaning)

/-- The tree of a whole program. -/
def parseProgram (filename : Option String) (text : String) : Diagnosed ParseFailure Node :=
  parse .program filename text.toList

/-- The tree of a single expression, with newlines around it allowed. -/
def parseExpression (filename : Option String) (text : String) : Diagnosed ParseFailure Node :=
  parse .expression filename text.toList

end Spruce
