import Spruce.Source.Position
import Spruce.Token.Terminal

set_option autoImplicit false

/-!
# Tokens

A text is cut into lexemes from left to right, each the longest that can stand
there; blanks are dropped and the other lexemes become tokens. A newline token
takes in every line feed, with or without a carriage return before it, and every
blank that follows. A word that is exactly a keyword becomes that keyword.

Main definitions: the longest lexeme of each class at the front of a text
(`word`, `numeral`, `lineRun`, `blanks`, `symbol`), the lexeme that stands there
(`lexeme`), and the tokens of a text (`lex`). Each step takes at least one
character (`lexeme_length_pos`).
-/

namespace Spruce

/-! ## Character classes -/

/-- The letters `A` to `Z` and `a` to `z`. -/
def isLetter (c : Char) : Bool := ('A' ≤ c && c ≤ 'Z') || ('a' ≤ c && c ≤ 'z')

/-- The digits `0` to `9`. -/
def isDigit (c : Char) : Bool := '0' ≤ c && c ≤ '9'

/-- A blank or a tab. -/
def isBlank (c : Char) : Bool := c = ' ' || c = '\t'

/-- A plus or minus sign. -/
def isSign (c : Char) : Bool := c = '+' || c = '-'

/-! ## The longest lexeme of a class at the front of a text -/

/-- Digits. -/
def digits (cs : List Char) : List Char := cs.takeWhile isDigit

/-- Blanks. -/
def blanks (cs : List Char) : List Char := cs.takeWhile isBlank

/-- A letter with the letters and digits after it. -/
def word : List Char → List Char
  | c :: cs => if isLetter c then c :: cs.takeWhile (fun d => isLetter d || isDigit d) else []
  | [] => []

/-- A decimal point with the digits after it, if any. -/
def fractionPart : List Char → List Char
  | '.' :: cs => '.' :: digits cs
  | _ => []

/-- Digits with an optional sign before them; nothing when there is no digit. -/
def signedDigits : List Char → List Char
  | c :: cs =>
      if isSign c then
        match digits cs with
        | [] => []
        | ds => c :: ds
      else digits (c :: cs)
  | [] => []

/-- An exponent mark with signed digits after it; nothing when there are no
digits. -/
def exponentPart : List Char → List Char
  | c :: cs =>
      if c = 'e' ∨ c = 'E' then
        match signedDigits cs with
        | [] => []
        | ds => c :: ds
      else []
  | [] => []

/-- Digits, with an optional fraction and an optional exponent. -/
def numeral (cs : List Char) : List Char :=
  match digits cs with
  | [] => []
  | whole =>
      let afterWhole := cs.drop whole.length
      let fraction := fractionPart afterWhole
      let exponent := exponentPart (afterWhole.drop fraction.length)
      whole ++ fraction ++ exponent

/-- Line breaks with the blanks after each. Blanks count only once a line break
has been met, as `started` tells. -/
def lineRun : (started : Bool) → List Char → List Char
  | _, '\n' :: cs => '\n' :: lineRun true cs
  | _, '\r' :: '\n' :: cs => '\r' :: '\n' :: lineRun true cs
  | started, c :: cs => if started && isBlank c then c :: lineRun true cs else []
  | _, [] => []

/-- A symbol; of two that can stand here, the longer. -/
def symbol (cs : List Char) : Option Terminal :=
  Terminal.symbols.find? fun t => t.spelling.isPrefixOf cs

/-! ## Lexemes -/

/-- A piece of text that stands for a token, or for nothing when it has no
kind. -/
structure Lexeme where
  kind : Option Terminal
  text : List Char
  deriving DecidableEq, Repr

/-- The terminal of a word: a keyword or an identifier. -/
def wordKind (cs : List Char) : Terminal :=
  (Terminal.keywords.find? fun t => t.spelling = cs).getD .identifier

/-- The lexeme at the front of a text, if one can stand there. -/
def lexeme (cs : List Char) : Option Lexeme :=
  match word cs with
  | w@(_ :: _) => some ⟨some (wordKind w), w⟩
  | [] =>
    match numeral cs with
    | n@(_ :: _) => some ⟨some .number, n⟩
    | [] =>
      match lineRun false cs with
      | l@(_ :: _) => some ⟨some .newline, l⟩
      | [] =>
        match blanks cs with
        | b@(_ :: _) => some ⟨none, b⟩
        | [] => (symbol cs).map fun t => ⟨some t, t.spelling⟩

/-- A lexeme has at least one character. -/
theorem lexeme_length_pos {cs : List Char} {l : Lexeme} (h : lexeme cs = some l) :
    0 < l.text.length := by
  unfold lexeme at h
  split at h
  · cases h; simp
  split at h
  · cases h; simp
  split at h
  · cases h; simp
  split at h
  · cases h; simp
  obtain ⟨t, ht, rfl⟩ := Option.map_eq_some_iff.1 h
  exact List.length_pos_iff.2
    (Terminal.spelling_ne_nil_of_mem_symbols (List.mem_of_find?_eq_some ht))

/-- There is a lexeme only where there is text. -/
theorem lexeme_nil : lexeme [] = none := rfl

/-- A text is shorter once its first lexeme is cut off. -/
theorem length_drop_lexeme {cs : List Char} {l : Lexeme} (h : lexeme cs = some l) :
    (cs.drop l.text.length).length < cs.length := by
  have hpos := lexeme_length_pos h
  have hcs : cs ≠ [] := by
    rintro rfl
    simp [lexeme_nil] at h
  have := List.length_pos_iff.2 hcs
  simp only [List.length_drop]
  omega

/-! ## Tokens -/

/-- A token: its kind, its text, and where it starts and stops. -/
structure Token where
  kind : Terminal
  text : List Char
  start : Position
  stop : Nat
  deriving DecidableEq, Repr

/-- The stretch of text of a token. -/
def Token.extent (t : Token) : Extent := ⟨t.start, t.stop⟩

/-- The tokens of a text, with the place where cutting ended and what was left
there: nothing at the end of the text, and otherwise a text that no lexeme can
start. -/
structure Lexed where
  tokens : List Token
  finish : Position
  rest : List Char
  deriving DecidableEq, Repr

/-- The tokens of the text `cs` that starts at `p`. -/
def lexFrom (p : Position) (cs : List Char) : Lexed :=
  match _ : lexeme cs with
  | none => ⟨[], p, cs⟩
  | some l =>
      let q := p.advance l.text
      let later := lexFrom q (cs.drop l.text.length)
      match l.kind with
      | none => later
      | some kind => { later with tokens := ⟨kind, l.text, p, q.offset⟩ :: later.tokens }
termination_by cs.length
decreasing_by exact length_drop_lexeme ‹_›

/-- The tokens of a text. -/
def lex (text : List Char) : Lexed := lexFrom .origin text

end Spruce
