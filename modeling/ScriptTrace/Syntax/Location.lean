/-!
# Source locations

Lines count from 1 and columns from 0, each within 32 bits.
-/

namespace ScriptTrace

/-- A place in the source text. -/
structure Position where
  line : UInt32
  column : UInt32
deriving DecidableEq

/-- Where a node starts and ends. -/
structure Location where
  start : Position
  stop : Position
deriving DecidableEq

namespace Location

/-- Whole lines, from the first to the last. -/
def lines (first last : UInt32) : Location := ⟨⟨first, 0⟩, ⟨last, 0⟩⟩

/-- One whole line. -/
def line (line : UInt32) : Location := lines line line

/-- A location as lines and columns, `1:0-1:5`. -/
def display (l : Location) : String :=
  let position (p : Position) : String := p.line.toNat.repr ++ ":" ++ p.column.toNat.repr
  position l.start ++ "-" ++ position l.stop

end Location

end ScriptTrace
