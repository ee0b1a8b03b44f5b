import QuantumIR.Text.Blank

/-!
# Lines

Cutting a text into lines. A line feed ends a line, and a carriage return just
before it belongs to the line end. What follows the last line feed is a line
only if it is not empty, so a final line feed does not open another line; a
carriage return anywhere else is an ordinary character.

## Main definitions

* `lines`: The lines of a text, without their ends.
-/

namespace QuantumIR

namespace Text

/-- Removes one carriage return from the end. -/
def dropReturn (s : List Char) : List Char :=
  if s.getLast? = some '\r' then s.dropLast else s

/-- The lines of a text. All pieces between line feeds but the last were ended
    by a line feed. -/
def lines (s : List Char) : List (List Char) :=
  let pieces := s.splitOn '\n'
  pieces.dropLast.map dropReturn ++ pieces.getLast?.toList.filter (fun l => !l.isEmpty)

end Text

end QuantumIR
