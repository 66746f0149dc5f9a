import Polyglot.Analysis.Walk

/-!
# Calls and definitions

Tracks which functions are defined in which scope, and which variables are handed to calls or have methods
called on them.
-/
namespace Polyglot.Calls

open Session

/-- Sources whose imports define nothing that a target has to know. -/
def ignoredModules : List String :=
  ["typing", "enum", "dataclasses", "ctypes", "math", "__future__", "asyncio", "sys", "os", "adt",
   "py2many.result", "py2many.smt"]

def addDefined (scope d : NodeId) : Analysis Unit := do
  match (← factsOf scope).definedFunctions with
  | none => fail .missingPart
  | some ds => note scope ({ · with definedFunctions := some (ds ++ [d]) })

def definedStep (self : Node → Analysis Unit) (n : Node) : Analysis Unit := do
  let clear : Analysis Unit := note n.id ({ · with definedFunctions := some [] })
  match n.shape with
  | .functionDef _ =>
    clear
    match (← Scope.chainOf n).reverse[1]? with
    | none => fail .outOfRange
    | some scope => addDefined scope n.id
    Pass.below self n
  | .module _ | .classDef _ | .forLoop _ | .cond .. | .withBlock .. =>
    clear
    Pass.below self n
  | .importFrom source names _ =>
    names.forM fun a => do
      if !(source.any ignoredModules.contains) then
        match (← Scope.chainOf n).getLast? with
        | none => fail .outOfRange
        | some scope => addDefined scope a.id
  | _ => Pass.below self n

def defined (n : Node) : Analysis Unit := Pass.run definedStep n

def addCalledWith (d : Option Node) (call : Node) : Analysis Unit := do
  match d with
  | none => fail .missingPart
  | some d =>
    match (← factsOf d.id).calledWith with
    | none => fail .missingPart
    | some cs => note d.id ({ · with calledWith := some (cs ++ [call.id]) })

def calledWithStep (self : Node → Analysis Unit) (n : Node) : Analysis Unit := do
  match n.shape with
  | .assign targets _ => targets.forM fun t => note t.id ({ · with calledWith := some [] })
  | .functionDef _ =>
    note n.id ({ · with calledWith := some [] })
    Pass.below self n
  | .call _ args _ =>
    for a in args do
      if let .name id _ := (← current a).shape then
        addCalledWith (← Scope.find (← Scope.chainOf n) (some id)) n
    Pass.below self n
  | _ => Pass.below self n

def calledWith (n : Node) : Analysis Unit := Pass.run calledWithStep n

def attributeCallsStep (self : Node → Analysis Unit) (n : Node) : Analysis Unit := do
  match n.shape with
  | .assign targets _ => targets.forM fun t => note t.id ({ · with calls := some [] })
  | .call func .. =>
    match (← current func).shape with
    | .attribute value _ _ =>
      match (← current value).shape with
      | .name id _ =>
        match ← Scope.find (← Scope.chainOf n) (some id) with
        | none => fail .missingPart
        | some d =>
          match (← factsOf d.id).calls with
          | none => fail .missingPart
          | some cs => note d.id ({ · with calls := some (cs ++ [n.id]) })
      | _ => fail .missingPart
    | _ => pure ()
  | _ => Pass.below self n

def attributeCalls (n : Node) : Analysis Unit := Pass.run attributeCallsStep n

end Polyglot.Calls
