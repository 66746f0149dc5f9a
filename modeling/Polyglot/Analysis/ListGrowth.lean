import Polyglot.Analysis.Walk

/-!
# Lists that grow

Collects, for a variable that starts as a list, the calls that add to it.
-/
namespace Polyglot.ListGrowth

open Session

def growing : List String := ["append", "extend", "insert"]

def isStored (n : Node) : Analysis Bool :=
  match n.shape with
  | .attribute _ _ u | .subscript _ _ u | .starred _ u | .name _ u | .list _ u | .tuple _ u =>
    if u == .unset then fail .missingPart else return u == .store
  | _ => fail .missingPart

def isListAssignment (n : Node) : Analysis Bool := do
  match n.shape with
  | .assign targets value =>
    if (← current value).isList then
      match targets.head? with
      | some t => isStored (← current t)
      | none => fail .outOfRange
    else return false
  | _ => return false

/-- The variable to which a call adds something. -/
def grown? (n : Node) : Analysis (Option String) := do
  match n.shape with
  | .call func .. =>
    match (← current func).shape with
    | .attribute value attr .load =>
      match (← current value).shape with
      | .name id _ => return if growing.contains attr then some id else none
      | _ => return none
    | _ => return none
  | _ => return none

/-- Whether a call adds to a variable; a called thing without a name cannot be judged. -/
def isAddition (n : Node) : Analysis Bool := do
  match n.shape with
  | .call func .. =>
    let func ← current func
    match func.shape with
    | .attribute value attr .load => return (← current value).isName && growing.contains attr
    | .subscript value _ .load => if (← current value).isName then fail .missingPart else return false
    | .name .. | .list .. | .tuple .. => return false
    | _ => fail .missingPart
  | _ => fail .missingPart

/-- The variable to which a call adds, if that starts as a list. -/
def addedTo? (n : Node) : Analysis (Option NodeId) := do
  match ← grown? n with
  | none => return none
  | some id =>
    match ← Scope.find (← Scope.chainOf n) (some id) with
    | none => return none
    | some var =>
      match (← factsOf var.id).assignedFrom with
      | none => fail .missingPart
      | some source => return if ← isListAssignment (← nodeOf source) then some var.id else none

def step (self : Node → Analysis Unit) (n : Node) : Analysis Unit := do
  match n.shape with
  | .call .. =>
    (← addedTo? n).forM fun var => note var fun f => { f with calls := some (f.calls.getD [] ++ [n.id]) }
  | _ => Pass.below self n

def collect (n : Node) : Analysis Unit := Pass.run step n

end Polyglot.ListGrowth
