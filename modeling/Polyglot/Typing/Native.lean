import Polyglot.Typing.Inference

/-!
# Native types

A target may infer types in its own names next to the source's. The native type of a node is found once and
remembered; of two operands the one with the wider native type decides.
-/
namespace Polyglot

open Session

structure NativeTypes where
  types : List (String × String)
  ranks : List (String × Nat)
  settle : Option String → Analysis (Option String)
  /-- A native operand widens to this before it takes part in an operation. -/
  promote : Option String → Option String
  /-- The name under which an operand's type is looked up. -/
  operand : Option String → Option String

namespace NativeTypes

def plain (types : List (String × String)) (ranks : List (String × Nat)) : NativeTypes :=
  { types, ranks, settle := fun t => return t, promote := fun t => t, operand := fun t => t }

def rename (nt : NativeTypes) (name : Option String) : Analysis (Option String) :=
  nt.settle (name.map fun s => ((Known.resolve [] s).bind fun k => nt.types.lookup k).getD s)

def rankOf (nt : NativeTypes) (t : Option String) : Nat :=
  match t.bind fun s => nt.ranks.lookup s with
  | some r => r + 1
  | none => 0

/-- The rank of a type term, of which several side by side have none. -/
def termRank (nt : NativeTypes) (t : TypeTerm) : Analysis Nat :=
  match t with
  | .many _ => fail .wrongSort
  | t => return nt.rankOf t.text?

def wider (nt : NativeTypes) (left right : Option String) : Analysis (Option String) := do
  let l := nt.promote (← nt.rename (nt.operand left))
  let r := nt.promote (← nt.rename (nt.operand right))
  return if nt.rankOf r < nt.rankOf l then l else r

def typeStep (nt : NativeTypes) (self : Option Node → Analysis (Option String)) :
    Option Node → Analysis (Option String)
  | none => nt.rename none
  | some n => do
    match (← factsOf n.id).targetType with
    | some t => return t
    | none =>
      let known : Analysis (Option String) := do
        let t ← nt.rename ((← Inference.typeOf n).bind Node.ident?)
        note n.id ({ · with targetType := some t })
        return t
      match n.shape with
      | .call func .. =>
        if ["max", "min", "floor"].contains ((← current func).ident?.getD "") then
          return some ((nt.types.lookup "float").getD "float64")
        else known
      | .name id _ =>
        match ← Scope.chain? n with
        | none => return none
        | some scopes =>
          match ← Scope.find scopes (some id) with
          | none => self none
          | some d => if d.id == n.id then known else self (some d)
      | _ => known

def typeOf? (nt : NativeTypes) (n : Option Node) : Analysis (Option String) :=
  tie nt.typeStep (fun _ => fail .tooDeep) nestingLimit n

def typeOf (nt : NativeTypes) (n : Node) : Analysis (Option String) := do nt.typeOf? (some (← current n))

def setType (n : Node) (t : Option String) : Analysis Unit :=
  note n.id ({ · with targetType := some t })

def binOpRule (nt : NativeTypes) : Inference.Rule := fun self n => do
  Pass.below self n
  match n.shape with
  | .binOp l _ r =>
    let left ← Inference.operandType n (← current l)
    let right ← Inference.operandType n (← current r)
    match left, right with
    | none, none => pure ()
    | none, some t | some t, none => setType n (← nt.typeOf t)
    | some a, some b => setType n (← nt.wider a.ident? b.ident?)
  | _ => pure ()

/-- The rules of inference with native types for operators. -/
def rules (nt : NativeTypes) : Inference.Rules := { Inference.rules with binOp := nt.binOpRule }

def infer (nt : NativeTypes) (n : Node) : Analysis Unit := do
  let _ ← Inference.infer nt.rules n

end NativeTypes
end Polyglot
