import Polyglot.Lowering.Basic
import Polyglot.Text.Casing

/-!
# Renaming

Changes of case in names, and the renaming of a function with all its uses.
-/
namespace Polyglot.Names

open Session

def dropFirst (c : Char) : List Char → List Char
  | [] => []
  | d :: ds => if d == c then ds else d :: dropFirst c ds

/-- A name with its first letter in upper case; the empty name has none. -/
def capitalFirst (name : String) : Option String :=
  match name.toList with
  | [] => none
  | c :: cs => some (Text.upper c.toString ++ String.ofList (dropFirst c (c :: cs)))

/-- Joins the parts between underscores, each with its first letter in upper case. Names without underscores
and names between double underscores stay. -/
def camelCase (name : String) : String :=
  if !(Text.occursIn "_" name) then name
  else if Text.startsWith name "__" && Text.endsWith name "__" then name
  else String.join ((Text.split name "_").map fun part => (capitalFirst part).getD "")

def renameStep (old new : String) (self : Node → Analysis Unit) (n : Node) : Analysis Unit := do
  match n.shape with
  | .name id u => if id == old then let _ ← edit n (.name new u)
  | .functionDef f =>
    if f.name == old then let _ ← edit n (.functionDef { f with name := new })
    Pass.below self n
  | _ => Pass.below self n

def rename (old new : String) (n : Node) : Analysis Unit := Pass.run (renameStep old new) n

end Polyglot.Names
