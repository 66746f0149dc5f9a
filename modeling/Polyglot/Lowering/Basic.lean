import Polyglot.Analysis.Walk
import Polyglot.Language

/-!
# Lowerings

A lowering replaces nodes by others that a target can express. It says what stands for a node, given how it
treats the nodes below; a statement may be replaced by none or by several. What it does not mention it goes
through.
-/
namespace Polyglot

open Session

abbrev Rewrite := Node → Analysis (List Node)

abbrev Lowering := (Node → Analysis (List Node)) → Node → Analysis (List Node)

namespace Lowering

def one (self : Node → Analysis (List Node)) (c : Node) : Analysis Node := do
  match ← self (← current c) with
  | [n] => return n
  | _ => fail .wrongSort

def many (self : Node → Analysis (List Node)) (cs : List Node) : Analysis (List Node) := do
  return (← cs.mapM fun c => do self (← current c)).flatten

/-- Records new parts of a node. A function that was renamed meanwhile keeps its new name. -/
def commit (n : Node) (shape : Shape Node) : Analysis Node := do
  let shape := match shape, (← current n).shape with
    | .functionDef f, .functionDef g => .functionDef { f with name := g.name }
    | s, _ => s
  edit n shape

def descend (self : Node → Analysis (List Node)) (n : Node) : Analysis Node := do
  commit n (← n.shape.traverse (one self) (many self))

def through (self : Node → Analysis (List Node)) (n : Node) : Analysis (List Node) := do
  return [← descend self n]

def run (step : Lowering) (n : Node) : Analysis Node := do
  match ← tie step (fun _ => fail .tooDeep) nestingLimit (← current n) with
  | [n] => refresh n
  | _ => fail .wrongSort

/-! ### New nodes -/

/-- The first statement of a text, put at the place of a node. -/
def statementAt (text : String) (at_ : Node) : Analysis Node := do
  match (← readProgram text).shape with
  | .module (b :: _) =>
    let b := { b with line := some (← lineOf at_), col := some (← colOf at_) }
    record b
    return b
  | _ => fail .outOfRange

def nameOn (line : Option Nat) (id : String) : Analysis Node := freshAt line none (.name id .unset)

def assignOn (line : Option Nat) (target value : Node) : Analysis Node :=
  freshAt line none (.assign [target] value)

/-- Several statements in the place of one: a branch that is always taken, marked as made. -/
def block (body : List Node) (at_ : Node) : Analysis Node := do
  let test ← fresh (.constant (.bool true) false)
  let b ← freshAt (some (← lineOf at_)) none (.cond test body [])
  note b.id ({ · with rewritten := true })
  place b

def isBlock (n : Node) : Analysis Bool := do
  match n.shape with
  | .cond test _ [] =>
    match (← current test).shape with
    | .constant v _ => return v.truthy && (← factsOf n.id).rewritten
    | _ => return false
  | _ => return false

end Lowering
end Polyglot
