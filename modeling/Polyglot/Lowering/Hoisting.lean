import Polyglot.Lowering.Basic

/-!
# Assignments inside expressions

An assignment that stands inside an expression becomes a statement of its own before the statement that holds the
expression. A loop whose condition assigns becomes an endless loop that is left from inside. A target says whether
the new statements get a place in the source.
-/
namespace Polyglot.Hoisting

open Session

variable (placed : Bool)

def columnOf (n : Node) : Option Nat := if placed then some (n.col.getD 0) else none

def settled (n : Node) : Analysis Node := if placed then place n else return n

/-- Whether an assignment stands inside an expression somewhere below. -/
def hasInner : Nat → Node → Bool
  | 0, _ => false
  | k + 1, n => (n.shape matches .namedExpr ..) || n.children.any (hasInner k)

/-- Takes the assignments out of an expression, innermost first. -/
def takeOut (self : Node → StateT (List Node) Analysis Node) (n : Node) : StateT (List Node) Analysis Node := do
  let one (c : Node) : StateT (List Node) Analysis Node := do self (← (current c : Analysis Node))
  match n.shape with
  | .namedExpr target value =>
    let value ← one value
    let a ← (freshAt (some (← lineOf n)) (columnOf placed n) (.assign [target] value) : Analysis Node)
    modify (· ++ [a])
    return target
  | shape =>
    let shape ← shape.traverse one (fun ns => ns.mapM one)
    (edit n shape : Analysis Node)

def extract (n : Node) : Analysis (Node × List Node) := do
  (tie (takeOut placed) (fun _ => (fail .tooDeep : Analysis Node)) nestingLimit (← current n)).run []

def expand (s : Node) : Analysis (List Node) := do
  let s ← refresh s
  if !(hasInner nestingLimit s) then return [s]
  else
    let before (test : Node) (rebuild : Node → Shape Node) : Analysis (List Node) := do
      let (test, assigns) ← extract placed test
      return assigns ++ [← settled placed (← edit s (rebuild test))]
    match s.shape with
    | .whileLoop test body orelse =>
      if hasInner nestingLimit test then
        let (test, assigns) ← extract placed test
        let done ← fresh (.unaryOp .not test)
        let leave ← fresh .breakLoop
        let stop ← freshAt (if placed then s.line else none) (columnOf placed s) (.cond done [leave] [])
        let always ← freshAt s.line none (.constant (.bool true) false)
        return [← settled placed (← edit s (.whileLoop always (assigns ++ [stop] ++ body) orelse))]
      else return [← settled placed s]
    | .cond test body orelse => before test fun t => .cond t body orelse
    | .forLoop l => before l.iter fun i => .forLoop { l with iter := i }
    | .assign targets v => before v fun v => .assign targets v
    | .augAssign t op v => before v fun v => .augAssign t op v
    | .annAssign _ _ none _ => fail .missingPart
    | .annAssign t a (some v) simple => before v fun v => .annAssign t a (some v) simple
    | .ret (some v) => before v fun v => .ret (some v)
    | .exprStmt v => before v .exprStmt
    | .assert test msg => before test fun t => .assert t msg
    | _ => return [← settled placed s]

def expandAll (body : List Node) : Analysis (List Node) := return (← body.mapM (expand placed)).flatten

/-- Assignments inside expressions become statements of their own before the statement. -/
def lift : Lowering := fun self n => do
  let n ← match n.shape with
    | .module body => edit n (.module (← expandAll placed body))
    | .functionDef f => edit n (.functionDef { f with body := ← expandAll placed f.body })
    | .cond test body orelse => edit n (.cond test (← expandAll placed body) (← expandAll placed orelse))
    | .whileLoop test body orelse => edit n (.whileLoop test (← expandAll placed body) orelse)
    | .forLoop l => edit n (.forLoop { l with body := ← expandAll placed l.body })
    | _ => pure n
  Lowering.through self n

end Polyglot.Hoisting
