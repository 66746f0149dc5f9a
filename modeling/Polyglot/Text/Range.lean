/-!
# Ranges of characters

Ranges are given in ascending order, by turns the length of the gap before a range and the length of the range.
-/
namespace Polyglot.Text

/-- The place of a number among those in some ranges. -/
def placeIn? : List Nat → Nat → Option Nat
  | gap :: length :: lengths, n =>
    if n < gap then none
    else if n < gap + length then some (n - gap)
    else (placeIn? lengths (n - gap - length)).map (length + ·)
  | _, _ => none

end Polyglot.Text
