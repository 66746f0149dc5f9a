import Polyglot.Lowering.Names

/-!
# The entry of a program

The branch that a program takes when it is started becomes a function of its own, and back.
-/
namespace Polyglot.Entry

open Session Lowering

def isEntryTest (test : Node) : Analysis Bool := do
  match (← current test).shape with
  | .compare left (.eq :: _) (c :: _) =>
    match (← current left).shape, (← current c).shape with
    | .name "__name__" _, .constant (.str "__main__") _ => return true
    | _, _ => return false
  | _ => return false

/-- The function that the entry branch becomes, by the parameters that a target expects. -/
def header (params : List String) (n : Node) : Analysis Node := do
  let isSet (xs : List String) := params.all xs.contains && xs.all params.contains
  if isSet ["argc", "argv"] then statementAt "def main(argc: int, argv: List[str]) -> int: True" n
  else if isSet ["argv"] then statementAt "def main(argv: List[str]): True" n
  else
    match (← readProgram "def main(): True").shape with
    | .module (b :: _) => return b
    | _ => fail .outOfRange

/-- Makes a function `main` of the entry branch. A function of this name around it is renamed before. -/
def extract (params : List String) : Lowering := fun self n => do
  match n.shape with
  | .cond test body _ =>
    if ← isEntryTest test then
      match (← Scope.chain? n).bind fun s => s.reverse[1]? with
      | some scope => Names.rename "main" "main_func" (← nodeOf scope)
      | none => pure ()
      let h ← header params n
      let line ← lineOf n
      match h.shape with
      | .functionDef f =>
        let h : Node := { h with line := some line, shape := .functionDef { f with body } }
        record h
        note h.id ({ · with isEntry := true })
        return [h]
      | _ => fail .wrongSort
    else return [n]
  | _ => through self n

def restore : Lowering := fun self n => do
  match n.shape with
  | .functionDef f =>
    if (← factsOf n.id).isEntry then
      let b ← statementAt "if __name__ == '__main__': True" n
      match b.shape with
      | .cond test _ orelse => return [← place (← edit b (.cond test f.body orelse))]
      | _ => fail .wrongSort
    else return [n]
  | _ => through self n

end Polyglot.Entry
