import Polyglot.Tree.Write

/-!
# Spelling annotations

An annotation as one text. Names and constants can be renamed on the way, and the parameters of a type stand
between brackets of one's own choice. What is no type is written as the expression that it is.
-/
namespace Polyglot

structure Spelling where
  rename : String → String := fun s => s
  openBracket : String := "["
  closeBracket : String := "]"

namespace Spelling

/-- An expression that is renamed as a whole; a name that is empty does not count. -/
def whole (s : Spelling) (text : String) : String :=
  let new := s.rename text
  if new.isEmpty then text else new

def spell (s : Spelling) : Nat → Node → Except Fault String
  | 0, _ => throw (.bare .tooDeep)
  | k + 1, n => do
    match n.shape with
    | .name id _ => return s.rename id
    | .call func args _ =>
      let f ← s.spell k func
      return ".".intercalate (← args.mapM (s.spell k)) ++ "." ++ f
    | .attribute value attr _ => return (← s.spell k value) ++ "." ++ s.rename attr
    | .constant v _ => return s.rename v.shown
    | .subscript value index _ =>
      let v ← s.spell k value
      return v ++ s.openBracket ++ (← s.spell k index) ++ s.closeBracket
    | .tuple es _ | .list es _ => return Text.commas (← es.mapM (s.spell k))
    | _ => return s.whole (← Write.text n)

def text (s : Spelling) (n : Node) : Except Fault String := s.spell nestingLimit n

end Spelling
end Polyglot
