set_option autoImplicit false

/-!
# Terminals

The kinds of token that a text is made of: names and numbers, newlines, the three
keywords, and symbols of one or two characters.

Main definitions: `Terminal`, its `spelling` where it has only one, and the
`description` that messages use. `Terminal.all` lists the terminals in the order
of their descriptions (`descriptions_sorted`).
-/

namespace Spruce

/-- The kinds of token. -/
inductive Terminal where
  | identifier
  | number
  | newline
  | typeKeyword
  | caseKeyword
  | mutKeyword
  | arrow
  | leftParen
  | rightParen
  | leftBrace
  | rightBrace
  | comma
  | colon
  | equal
  | plus
  | minus
  | star
  | slash
  | caret
  | percent
  | equalEqual
  | notEqual
  | lessEqual
  | greaterEqual
  | less
  | greater
  deriving DecidableEq, Repr

namespace Terminal

/-- The only text of a keyword or a symbol; nothing for a terminal with many
texts. -/
def spelling : Terminal → List Char
  | identifier => []
  | number => []
  | newline => []
  | typeKeyword => ['t', 'y', 'p', 'e']
  | caseKeyword => ['c', 'a', 's', 'e']
  | mutKeyword => ['m', 'u', 't']
  | arrow => ['-', '>']
  | leftParen => ['(']
  | rightParen => [')']
  | leftBrace => ['{']
  | rightBrace => ['}']
  | comma => [',']
  | colon => [':']
  | equal => ['=']
  | plus => ['+']
  | minus => ['-']
  | star => ['*']
  | slash => ['/']
  | caret => ['^']
  | percent => ['%']
  | equalEqual => ['=', '=']
  | notEqual => ['!', '=']
  | lessEqual => ['<', '=']
  | greaterEqual => ['>', '=']
  | less => ['<']
  | greater => ['>']

/-- How messages name a terminal: what it is, or its spelling between single
quotes. -/
def description : Terminal → String
  | identifier => "identifier"
  | number => "number"
  | newline => "newline"
  | t => String.ofList (['\''] ++ t.spelling ++ ['\''])

/-- The keywords. -/
def keywords : List Terminal := [typeKeyword, caseKeyword, mutKeyword]

/-- The symbols, those of two characters first. -/
def symbols : List Terminal :=
  [arrow, equalEqual, notEqual, lessEqual, greaterEqual, leftParen, rightParen, leftBrace,
    rightBrace, comma, colon, equal, plus, minus, star, slash, caret, percent, less, greater]

/-- Every terminal, in the order of the descriptions. -/
def all : List Terminal :=
  [notEqual, percent, leftParen, rightParen, star, plus, comma, minus, arrow, slash, colon,
    less, lessEqual, equal, equalEqual, greater, greaterEqual, caret, caseKeyword, mutKeyword,
    typeKeyword, leftBrace, rightBrace, identifier, newline, number]

theorem spelling_ne_nil_of_mem_symbols {t : Terminal} (h : t ∈ symbols) : t.spelling ≠ [] := by
  revert t
  decide

theorem mem_all (t : Terminal) : t ∈ all := by
  cases t <;> decide

/-- Listed order is the order of the descriptions by code point. -/
theorem descriptions_sorted :
    (all.map fun t => t.description.toList).Pairwise (· < ·) := by
  decide +kernel

end Terminal

end Spruce
