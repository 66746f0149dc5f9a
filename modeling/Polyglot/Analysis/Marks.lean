import Polyglot.Analysis.Walk

/-!
# Marks

Passes that mark nodes by where they stand: on the left of an assignment, at what depth of blocks, inside an
annotation, and under which import.
-/
namespace Polyglot.Marks

open Session

def targetsStep (self : Bool × Node → Analysis Unit) : Bool × Node → Analysis Unit
  | (left, n) => do
    if left then note n.id ({ · with isTarget := true })
    let visit (left : Bool) (c : Node) : Analysis Unit := do self (left, ← current c)
    match n.shape with
    | .assign targets value =>
      targets.forM (visit true)
      visit false value
    | .annAssign target ann value _ =>
      visit true target
      visit false ann
      value.forM (visit false)
    | .augAssign target _ value =>
      visit true target
      visit false value
    | _ => n.children.forM (visit left)

def targets (n : Node) : Analysis Unit := do
  tie targetsStep (fun _ => fail .tooDeep) nestingLimit (false, ← current n)

/-- Counts the blocks around functions, classes, branches, loops and assignments. -/
def levelsStep (self : Nat × Node → Analysis Unit) : Nat × Node → Analysis Unit
  | (level, n) => do
    let below (level : Nat) : Analysis Unit := n.children.forM fun c => do self (level, ← current c)
    match n.shape with
    | .functionDef _ | .classDef _ | .cond .. | .whileLoop .. | .forLoop _ =>
      note n.id ({ · with level := some level })
      below (level + 1)
    | .assign .. =>
      note n.id ({ · with level := some level })
      below level
    | _ => below level

def levels (n : Node) : Analysis Unit := do
  tie levelsStep (fun _ => fail .tooDeep) nestingLimit (0, ← current n)

/-- Marks the types that stand in annotations, and the targets of annotated assignments. -/
def hintsStep (self : Bool × Node → Analysis Unit) : Bool × Node → Analysis Unit
  | (inside, n) => do
    let visit (inside : Bool) (c : Node) : Analysis Unit := do self (inside, ← current c)
    match n.shape with
    | .arg _ ann => ann.forM (visit true)
    | .functionDef f =>
      f.returns.forM (visit true)
      n.children.forM (visit (inside && f.returns.isNone))
    | .annAssign target _ _ _ =>
      visit true target
      n.children.forM (visit false)
    | .tuple .. | .list .. | .name .. | .subscript .. =>
      if inside then note n.id ({ · with inHint := true })
      n.children.forM (visit inside)
    | _ => n.children.forM (visit inside)

def hints (n : Node) : Analysis Unit := do
  tie hintsStep (fun _ => fail .tooDeep) nestingLimit (false, ← current n)

def importsStep (self : Node → Analysis Unit) (n : Node) : Analysis Unit := do
  match n.shape with
  | .importFrom _ names _ =>
    names.forM fun a => do
      note a.id ({ · with importedFrom := some n.id })
      match (← Scope.chainOf a).getLast? with
      | none => fail .outOfRange
      | some scope =>
        match (← factsOf scope).imports with
        | none => pure ()
        | some imports => note scope ({ · with imports := some (imports ++ [a.id]) })
  | .module _ =>
    note n.id ({ · with imports := some [] })
    Pass.below self n
  | _ => Pass.below self n

def imports (n : Node) : Analysis Unit := Pass.run importsStep n

end Polyglot.Marks
