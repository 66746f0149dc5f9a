import Polyglot.Scope

/-!
# Passes over a tree

A pass says what is done at a node, given how it treats the nodes below. Children are looked up afresh when
their turn comes, so a pass sees what it changed on the way.
-/
namespace Polyglot

open Session

namespace Pass

variable {m : Type → Type} [Monad m] [MonadLiftT Analysis m]

def below (self : Node → m Unit) (n : Node) : m Unit :=
  n.children.forM fun c => do self (← (current c : Analysis Node))

def each (self : Node → m Unit) (ns : List Node) : m Unit :=
  ns.forM fun c => do self (← (current c : Analysis Node))

def run (step : (Node → m Unit) → Node → m Unit) (n : Node) : m Unit := do
  let n ← (current n : Analysis Node)
  tie step (fun _ => (fail .tooDeep : Analysis Unit)) nestingLimit n

def nodesFrom : Nat → List Node → Analysis (List Node)
  | 0, _ => fail .tooDeep
  | _, [] => return []
  | k + 1, ns => do
    let ns ← ns.mapM current
    return ns ++ (← nodesFrom k (ns.map Node.children).flatten)

def nodesOf (n : Node) : Analysis (List Node) := nodesFrom nestingLimit [n]

end Pass
end Polyglot
