import Polyglot.Analysis.Walk

/-!
# Functions that can fail

A function can fail if it asserts something or calls a function that can fail. The passes go over a program
once, so a function counts as failing only after it was seen.
-/
namespace Polyglot.Raising

open Session

def mark (n : Node) : Analysis Unit := do
  match ← Scope.functionOf (← Scope.chainOf n) with
  | some f => note f.id ({ · with raises := true })
  | none => pure ()

def step (self : Node → Analysis Unit) (n : Node) : Analysis Unit := do
  match n.shape with
  | .assert .. =>
    mark n
    Pass.below self n
  | .call func .. =>
    self (← current func)
    match ← Scope.findOutward (← Scope.chainOf n) (← current func).ident? with
    | some d => if (← factsOf d.id).raises then mark n
    | none => pure ()
    Pass.below self n
  | _ => Pass.below self n

def detect (n : Node) : Analysis Unit := Pass.run step n

end Polyglot.Raising
