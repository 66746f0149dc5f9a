import Polyglot.Lowering.Basic
import Polyglot.Typing.Inference

/-!
# Numbers
-/
namespace Polyglot.Numbers

open Session

/-- A number is compared with zero rather than with nothing. -/
def zeroForNothing : Lowering := fun self n => do
  match n.shape with
  | .compare left _ (c :: _) =>
    let left ← Lowering.one self left
    let right ← Lowering.one self c
    match left.shape, right.shape with
    | .constant (.int _) _, .constant .nothing m | .constant (.bool _) _, .constant .nothing m =>
      let _ ← edit right (.constant (.int 0) m)
    | _, _ => pure ()
    return [← current n]
  | .compare .. => fail .outOfRange
  | _ => Lowering.through self n

/-- Marks divisions of one integer by another. -/
def wholeDivisions : Lowering := fun self n => do
  let n ← Lowering.descend self n
  match n.shape with
  | .binOp l .div r =>
    let nameOf (n : Node) : Analysis (Option String) := return (← Inference.typeOf n).bind Node.ident?
    let left ← nameOf l
    let right ← nameOf r
    if left == some "int" && right == some "int" then note n.id ({ · with integerDivision := true })
    return [n]
  | _ => return [n]

end Polyglot.Numbers
