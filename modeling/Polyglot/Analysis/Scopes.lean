import Polyglot.Analysis.Walk

/-!
# Scopes and what is defined in them

`Scope.assign` gives every node the chain of scopes it lies in; a node that opens a scope lies in it.
`Scope.declare` records in every scope the variables, functions and classes that are defined there. A name that
is imported from another program of the run is looked up there.
-/
namespace Polyglot

open Session

namespace Scope

/-- Does something with a node's scope open. -/
def within (n : Node) (act : Analysis Unit) : Analysis Unit := do
  if n.opensScope then
    modify fun s => { s with openScopes := s.openScopes ++ [n.id] }
    act
    modify fun s => { s with openScopes := s.openScopes.dropLast }
  else act

def assignStep (self : Node → Analysis Unit) (n : Node) : Analysis Unit :=
  within n do
    let scopes := (← get).openScopes
    note n.id ({ · with scopes := some scopes })
    Pass.below self n

def assign (n : Node) : Analysis Unit := Pass.run assignStep n

def addVar (scope : NodeId) (var : Option NodeId) : Analysis Unit := do
  match (← factsOf scope).vars with
  | none => fail .missingPart
  | some vars => note scope ({ · with vars := some (vars ++ [var]) })

def clearVars (n : Node) : Analysis Unit := note n.id ({ · with vars := some [] })

def openScope (up : Nat) : Analysis NodeId := do
  match (← get).openScopes.reverse[up]? with
  | some id => return id
  | none => fail (if up == 0 then .missingPart else .outOfRange)

def assigned (target from_ : Node) : Analysis Unit :=
  note target.id ({ · with assignedFrom := some from_.id })

def declareTarget (n target : Node) : Analysis Unit := do
  if target.isName then
    assigned target n
    addVar (← openScope 0) (some target.id)

def argsOf (f : Function Node) : List Node :=
  match f.args.shape with
  | .parameters p => p.args
  | _ => []

/-- `others` are the programs of the run by name. -/
def declareStep (others : List (String × Node)) (self : Node → Analysis Unit) (n : Node) : Analysis Unit :=
  within n do
    match n.shape with
    | .functionDef f =>
      clearVars n
      addVar (← openScope 1) (some n.id)
      for a in argsOf f do
        assigned a n
        addVar n.id (some a.id)
      Pass.below self n
    | .classDef _ =>
      clearVars n
      addVar (← openScope 1) (some n.id)
      Pass.below self n
    | .importNames names => names.forM fun a => note a.id ({ · with importedFrom := some n.id })
    | .importFrom source names _ =>
      match source.bind fun s => others.lookup s with
      | none => pure ()
      | some m =>
        let found ← names.mapM fun a => do find (← chainOf m) a.ident?
        match (← chainOf n).getLast? with
        | none => fail .outOfRange
        | some scope =>
          if (← factsOf scope).vars.isNone then fail .missingPart
          found.forM fun d => addVar scope (d.map (·.id))
    | .cond test body orelse =>
      clearVars n
      self (← current test)
      Pass.each self body
      note n.id fun f => { f with bodyVars := f.vars, vars := some [] }
      Pass.each self orelse
      note n.id fun f => { f with elseVars := f.vars, vars := some [] }
    | .forLoop l =>
      assigned l.target n
      let target ← current l.target
      let vars := match target.shape with
        | .name .. => [some target.id]
        | .tuple es _ => es.map fun e => some e.id
        | _ => []
      note n.id ({ · with vars := some vars })
      Pass.below self n
    | .module _ | .withBlock .. =>
      clearVars n
      Pass.below self n
    | .assign targets _ =>
      targets.forM fun t => do declareTarget n (← current t)
      Pass.below self n
    | .annAssign target .. | .augAssign target .. =>
      declareTarget n (← current target)
      Pass.below self n
    | _ => Pass.below self n

def declare (others : List (String × Node)) (n : Node) : Analysis Unit := Pass.run (declareStep others) n

end Scope
end Polyglot
