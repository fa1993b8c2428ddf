/-!
# Lines

The lines of a text. A line feed ends a line, and a carriage return before it belongs to the end.
-/

namespace Gatehouse.Text

/-- Without a carriage return at the end. -/
def dropReturn (line : List Char) : List Char :=
  if line.getLast? = some '\r' then line.dropLast else line

/-- The lines of a text; what follows the last line feed is a line as it stands. -/
def lines : List Char → List (List Char)
  | [] => []
  | cs =>
    let line := cs.takeWhile (· ≠ '\n')
    match _dropped : cs.drop line.length with
    | [] => [line]
    | _ :: rest => dropReturn line :: lines rest
termination_by cs => cs.length
decreasing_by
  have := congrArg List.length _dropped
  simp only [List.length_drop, List.length_cons] at this
  omega

end Gatehouse.Text
