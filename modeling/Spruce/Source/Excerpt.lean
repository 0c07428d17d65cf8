set_option autoImplicit false

/-!
# Excerpts

A message about a place in a text may show the line the place stands on, with a
caret under the place. An excerpt keeps at most forty characters on either side.

Main definition: `excerpt`.
-/

namespace Spruce

/-- Longest stretch of text shown on either side of the place. -/
def excerptReach : Nat := 40

/-- Width of a tab stop. -/
def tabWidth : Nat := 8

/-- The column reached by writing `c` at column `width`, columns counted from
zero. -/
def displayNext (width : Nat) (c : Char) : Nat :=
  if c = '\t' then (width / tabWidth + 1) * tabWidth else width + 1

/-- Number of columns that `cs` takes up when written from column zero. -/
def displayWidth (cs : List Char) : Nat := cs.foldl displayNext 0

/-- What follows the last line feed of `cs`. -/
def lastLine (cs : List Char) : List Char :=
  (cs.reverse.takeWhile (· ≠ '\n')).reverse

/-- What precedes the first line feed of `cs`. -/
def firstLine (cs : List Char) : List Char := cs.takeWhile (· ≠ '\n')

/-- The text shown before the place at `offset`. -/
def excerptBefore (text : List Char) (offset : Nat) : List Char :=
  lastLine ((text.take offset).drop (offset - excerptReach))

/-- The text shown from the place at `offset` on. -/
def excerptAfter (text : List Char) (offset : Nat) : List Char :=
  firstLine ((text.drop offset).take excerptReach)

/-- The line around `offset`, and a caret below the place itself. -/
def excerpt (text : List Char) (offset : Nat) : List Char :=
  let before := excerptBefore text offset
  before ++ excerptAfter text offset ++ ['\n'] ++
    List.replicate (displayWidth before) ' ' ++ ['^', '\n']

end Spruce
