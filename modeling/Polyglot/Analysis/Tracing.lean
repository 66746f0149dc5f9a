import Polyglot.Tree.Write
import Polyglot.Analysis.ListGrowth

/-!
# Tracing values

Follows assignments to find the expression behind a name, and guesses what type a value has by what it is made
from. A list is judged by its first element, or else by what is first added to it.
-/
namespace Polyglot.Tracing

open Session

/-- The value that a definition was assigned; loops and functions assign none. -/
def assignedValue (n : Node) : Analysis (Option Node) := do
  match n.shape with
  | .assign _ v | .augAssign _ _ v => return some (← current v)
  | .annAssign _ _ v _ => v.mapM current
  | _ => fail .missingPart

def isListStep (self : Option Node → Analysis Bool) : Option Node → Analysis Bool
  | none => return false
  | some n => do
    match n.shape with
    | .list .. => return true
    | .assign _ v => self (some (← current v))
    | .name id _ =>
      match ← Scope.find (← Scope.chainOf n) (some id) with
      | none => return false
      | some var =>
        match (← factsOf var.id).assignedFrom with
        | none => return false
        | some source =>
          let source ← nodeOf source
          if source.isFunction || source.isFor then return false else self (← assignedValue source)
    | _ => return false

def isList (n : Node) : Analysis Bool := do
  tie isListStep (fun _ => fail .tooDeep) nestingLimit (some (← current n))

/-- How symbols of operators and constants are written in traces. -/
structure Wording where
  operator : BinOp → Option String
  constant : Literal → String
  /-- Whether a name that is met again while it is traced stays as it is. -/
  stopsAtCycles : Bool
  /-- Whether a definition that was never assigned stays as it is. -/
  keepsUnassigned : Bool

abbrev Traced := Option String

def valueStep (w : Wording) (self : List String × Option Node → Analysis Traced) :
    List String × Option Node → Analysis Traced
  | (_, none) => fail .missingPart
  | (met, some n) => do
    let visit (c : Node) : Analysis Traced := do self (met, some (← current c))
    match n.shape with
    | .constant v _ => return some v.shown
    | .name id _ =>
      if w.stopsAtCycles && met.contains id then return some id
      else
        let met := id :: met
        match ← Scope.find (← Scope.chainOf n) (some id) with
        | none => return some id
        | some var =>
          match (← factsOf var.id).assignedFrom with
          | none => if w.keepsUnassigned then return some id else fail .missingPart
          | some source =>
            let source ← nodeOf source
            match source.shape with
            | .forLoop l =>
              let it ← self (met, some (← current l.iter))
              return some ("std::declval<typename decltype(" ++ it.getD "None" ++ ")::value_type>()")
            | .functionDef _ => return var.ident?
            | _ => self (met, ← assignedValue source)
    | .call func args _ =>
      let args ← args.filterMapM visit
      let f ← visit func
      return some (f.getD "None" ++ "(" ++ ",".intercalate args ++ ")")
    | .assign _ v => visit v
    | .binOp l op r =>
      let l ← visit l
      let r ← visit r
      return some (l.getD "None" ++ " " ++ (w.operator op).getD "None" ++ " " ++ r.getD "None")
    | _ =>
      n.children.forM fun c => do let _ ← visit c
      return none

/-- The expression behind a node; kinds of expression that are not followed have none. -/
def valueOf (w : Wording) (n : Node) : Analysis Traced := do
  tie (valueStep w) (fun _ => fail .tooDeep) nestingLimit ([], some (← current n))

def firstAdded (n : Node) (target : Node) : Analysis (Option Node) := do
  match ← Scope.find (← Scope.chainOf n) target.ident? with
  | none => return none
  | some var =>
    match (← factsOf var.id).calls with
    | none => return none
    | some [] => fail .outOfRange
    | some (c :: _) =>
      match (← nodeOf c).shape with
      | .call _ (a :: _) _ => return some (← current a)
      | _ => fail .outOfRange

def guessStep (plain w : Wording) (self : Option Node → Analysis Traced) : Option Node → Analysis Traced
  | none => return some "auto"
  | some n => do
    let visit (c : Node) : Analysis Traced := do self (some (← current c))
    match n.shape with
    | .constant v _ => return some (w.constant v)
    | .name id _ =>
      match ← Scope.find (← Scope.chainOf n) (some id) with
      | none => return some id
      | some var =>
        if ← Scope.definedBefore (some var) n then return some id
        else
          match (← factsOf var.id).assignedFrom with
          | none => fail .missingPart
          | some source => self (← assignedValue (← nodeOf source))
    | .call func args _ =>
      let params ← args.mapM visit
      if params.any Option.isNone then
        let texts := params.map fun p => (p.map Text.quoted).getD "None"
        throwAt .unsupported (some ("Call([" ++ Text.commas texts ++ "]) not implemented")) n
      else
        let f ← visit func
        return some (f.getD "None" ++ "(" ++ ",".intercalate (params.filterMap fun p => p) ++ ")")
    | .attribute value attr _ => return some ((← current value).ident?.getD "None" ++ "." ++ attr)
    | .assign targets value =>
      match (← current value).shape with
      | .list (e :: _) _ => visit e
      | .list [] _ =>
        match targets.head? with
        | none => fail .outOfRange
        | some t =>
          match ← firstAdded n (← current t) with
          | none => return none
          | some a => valueOf plain a
      | _ => visit value
    | _ => return some "auto"

/-- A guess at the type of a node; `plain` says how values behind a list are followed. -/
def guess (plain w : Wording) (n : Node) : Analysis Traced := do
  tie (guessStep plain w) (fun _ => fail .tooDeep) nestingLimit (some (← current n))

/-- Whether the last call in a function is to the function that was entered last. -/
def recursiveStep (self : Node → StateT (Option String × Bool) Analysis Unit) (n : Node) :
    StateT (Option String × Bool) Analysis Unit := do
  match n.shape with
  | .functionDef f =>
    modify fun (_, r) => (some f.name, r)
    Pass.below self n
  | .call func .. =>
    let func ← (current func : Analysis Node)
    modify fun (name, _) => (name, func.isName && func.ident? == name)
    Pass.below self n
  | _ => Pass.below self n

def isRecursive (n : Node) : Analysis Bool := do
  return (← (Pass.run recursiveStep n).run (none, false)).2.2

/-- Whether a node is found below another one by a test that stops at some nodes. -/
def anywhere (found stop : Node → Bool) : Nat → Node → Analysis Bool
  | 0, _ => fail .tooDeep
  | k + 1, n => do
    if found n then return true
    else if stop n then return false
    else n.children.anyM fun c => do anywhere found stop k (← current c)

/-- Whether a function neither returns a value nor declares one. -/
def isVoid (n : Node) : Analysis Bool := do
  let returns ← anywhere (fun n => n.shape matches .ret (some _)) (fun n => n.shape matches .ret _) nestingLimit n
  match (← current n).shape with
  | .functionDef f | .asyncFunctionDef f => return !(returns || f.returns.isSome)
  | _ => fail .missingPart

def isGenerator (n : Node) : Analysis Bool :=
  anywhere (fun m => m.shape matches .yield _)
    (fun m => m.id != n.id && (m.shape matches .functionDef _ | .asyncFunctionDef _)) nestingLimit n

end Polyglot.Tracing
