import Spruce.Text.Basic

set_option autoImplicit false

/-!
# Positions and spans

A position is a place between two characters of a text: how many characters
come before it, and the line and column it stands on. Lines are counted by line
feeds only, and a column is the distance from the last line feed plus one.

Main definitions: `Position.advance` moves a position over text, `Extent` is a
stretch of text, `Span` says where the text of a node stands, and `placeText` is
how messages write a place.
-/

namespace Spruce

/-! ## Positions -/

/-- A place in a text. Offsets count characters from zero; lines and columns
count from one. -/
structure Position where
  offset : Nat
  line : Nat
  column : Nat
  deriving DecidableEq, Repr

namespace Position

/-- The place before the first character of a text. -/
def origin : Position := ⟨0, 1, 1⟩

/-- The place after one character that starts at `p`. -/
def next (p : Position) (c : Char) : Position :=
  if c = '\n' then ⟨p.offset + 1, p.line + 1, 1⟩
  else ⟨p.offset + 1, p.line, p.column + 1⟩

/-- The place after the text `cs` that starts at `p`. -/
def advance (p : Position) (cs : List Char) : Position := cs.foldl next p

@[simp] theorem advance_nil (p : Position) : p.advance [] = p := rfl

@[simp] theorem advance_cons (p : Position) (c : Char) (cs : List Char) :
    p.advance (c :: cs) = (p.next c).advance cs := rfl

theorem advance_append (p : Position) (cs ds : List Char) :
    p.advance (cs ++ ds) = (p.advance cs).advance ds := by
  simp [advance, List.foldl_append]

@[simp] theorem next_offset (p : Position) (c : Char) :
    (p.next c).offset = p.offset + 1 := by
  unfold next
  split <;> rfl

@[simp] theorem advance_offset (p : Position) (cs : List Char) :
    (p.advance cs).offset = p.offset + cs.length := by
  induction cs generalizing p with
  | nil => rfl
  | cons c cs ih => simp [ih, Nat.add_assoc, Nat.add_comm 1]

theorem advance_origin_offset (cs : List Char) : (origin.advance cs).offset = cs.length := by
  rw [advance_offset]
  exact Nat.zero_add _

end Position

/-! ## Extents and spans -/

/-- A stretch of text from `start` up to, and not including, the offset `stop`. -/
structure Extent where
  start : Position
  stop : Nat
  deriving DecidableEq, Repr

/-- The stretch from the beginning of the first extent to the end of the last;
an absent extent adds nothing. -/
def Extent.cover : Option Extent → Option Extent → Option Extent
  | none, e => e
  | some a, none => some a
  | some a, some b => some ⟨a.start, b.stop⟩

/-- Where the text of a node stands, and in which file. The span of a node that
was read counts as positions do; one made by hand may hold any whole numbers. -/
structure Span where
  start : Int
  stop : Int
  line : Int
  column : Int
  filename : Option String
  deriving DecidableEq, Repr

namespace Span

/-- The span of an extent in a file. -/
def ofExtent (filename : Option String) (e : Extent) : Span :=
  ⟨e.start.offset, e.stop, e.start.line, e.start.column, filename⟩

/-- The span from the beginning of `left` to the end of `right`; unknown when
either is. -/
def join : Option Span → Option Span → Option Span
  | some left, some right => some { left with stop := right.stop }
  | _, _ => none

end Span

/-! ## Places in messages -/

/-- A place as messages write it: file, if known, then line and column. -/
def placeText (filename : Option String) (line column : Int) : String :=
  (match filename with
    | none => ""
    | some name => name ++ ":") ++
    String.ofList (integerText line ++ ':' :: integerText column)

/-- A position as messages write it. -/
def Position.located (filename : Option String) (p : Position) : String :=
  placeText filename p.line p.column

/-- The beginning of a span as messages write it. -/
def Span.located (s : Span) : String := placeText s.filename s.line s.column

end Spruce
