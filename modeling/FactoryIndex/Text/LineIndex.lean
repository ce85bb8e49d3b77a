/-!
# Lines and columns of offsets

A `LineIndex` is the table of the offsets at which the lines of a text start. The line of an offset is
found by bisection over that table; its column is the distance from the start of the line. Lines and
columns count from zero.

An offset before the text belongs to line `-1`, and its column is then measured from the start of the
last line.
-/

namespace FactoryIndex.Text

/-- The offsets at which the lines of a text start: ascending, the first one being zero. -/
structure LineIndex where
  starts : Array Nat
  deriving Repr, DecidableEq

/-- A line and a column, both counted from zero. -/
structure Position where
  line : Int
  column : Int
  deriving Repr, DecidableEq

namespace LineIndex

/-- The offsets right after the newlines of a text whose first character has the given offset. -/
def startsAfterNewlines : (offset : Nat) → List Char → List Nat
  | _, [] => []
  | offset, c :: rest =>
    if c = '\n' then (offset + 1) :: startsAfterNewlines (offset + 1) rest
    else startsAfterNewlines (offset + 1) rest

def ofText (text : List Char) : LineIndex := ⟨(0 :: startsAfterNewlines 0 text).toArray⟩

/-- Bisection between `low` and `high`: the first index there whose start lies after the offset, or
`high` if there is none. -/
def bisect (starts : Array Nat) (offset : Int) (low high : Nat) : Nat :=
  if low < high then
    let middle := (low + high) / 2
    if offset < (starts.getD middle 0 : Int) then bisect starts offset low middle
    else bisect starts offset (middle + 1) high
  else low
termination_by high - low

/-- The line an offset lies on: the last one that starts at the offset or before it. -/
def lineOf (index : LineIndex) (offset : Int) : Int :=
  (bisect index.starts offset 0 index.starts.size : Int) - 1

/-- The offset at which a line starts; line `-1` stands for the last line. -/
def startOf (index : LineIndex) (line : Int) : Nat :=
  if line < 0 then index.starts.getD (index.starts.size - 1) 0 else index.starts.getD line.toNat 0

/-- The line and the column of an offset. -/
def position (index : LineIndex) (offset : Int) : Position :=
  let line := index.lineOf offset
  ⟨line, offset - index.startOf line⟩

end LineIndex

end FactoryIndex.Text
