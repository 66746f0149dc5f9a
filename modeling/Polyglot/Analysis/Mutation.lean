import Polyglot.Analysis.Walk

/-!
# Variables that change

A variable of a function changes if it is set more than once, or handed to a function that changes its
parameter. The uses are counted from the last function that was entered.
-/
namespace Polyglot.Mutation

open Session

/-- How often each name was set, in order of first use. -/
abbrev Uses := List (Option String × Nat)

def Uses.add (uses : Uses) (name : Option String) : Uses :=
  if (uses.lookup name).isSome then uses.map fun (k, c) => if k == name then (k, c + 1) else (k, c)
  else uses ++ [(name, 1)]

abbrev Counting := StateT Uses Analysis

def use (name : Option String) : Counting Unit := modify (·.add name)

def parametersOf (n : Node) : Analysis (Option (List Node)) := do
  match n.shape with
  | .functionDef f | .asyncFunctionDef f =>
    match (← current f.args).shape with
    | .parameters p => return some p.args
    | _ => return some []
  | .call .. => fail .missingPart
  | _ => return none

def changedIn (id : NodeId) : Analysis (Option (List (Option String))) := return (← factsOf id).mutableVars

/-- Counts the arguments of a call that its function changes. -/
def useHanded (d : Option Node) (args : List Node) : Counting Unit := do
  match d with
  | none => pure ()
  | some d =>
    match ← (parametersOf d : Analysis _) with
    | none => pure ()
    | some params =>
      match ← (changedIn d.id : Analysis _) with
      | none => pure ()
      | some changed =>
        for (p, a) in params.zip args do
          if changed.contains p.ident? then
            use (← (current a : Analysis Node)).ident?

/-- Counts the uses at a node and below. `finish` is told of the variables of a function that change. -/
def step (finish : Node → List (Option String) → Analysis Unit) (self : Bool × Node → Counting Unit) :
    Bool × Node → Counting Unit
  | (setting, n) => do
    let visit (setting : Bool) (c : Node) : Counting Unit := do self (setting, ← (current c : Analysis Node))
    let below : Counting Unit := n.children.forM (visit setting)
    match n.shape with
    | .functionDef _ =>
      set ([] : Uses)
      below
      finish n ((← get).filterMap fun (name, c) => if c > 1 then some name else none)
    | .assign targets _ =>
      match targets.head? with
      | none => below
      | some target =>
        let target ← (current target : Analysis Node)
        if let .tuple es _ := target.shape then es.forM (visit true)
        visit true target
        below
    | .augAssign target _ _ | .annAssign target _ _ _ =>
      visit true target
      below
    | .name id _ => if setting then use (some id)
    | .call func args _ =>
      let func ← (current func : Analysis Node)
      let d ← (do Scope.find (← Scope.chainOf n) func.ident? : Analysis (Option Node))
      useHanded d args
      if let .attribute value "append" _ := func.shape then
        use (← (current value : Analysis Node)).ident?
      below
    | _ => below

def run (finish : Node → List (Option String) → Analysis Unit) (n : Node) : Analysis Unit := do
  let _ ← (tie (step finish) (fun _ => (fail .tooDeep : Analysis Unit)) nestingLimit (false, ← current n)).run []

def detect (n : Node) : Analysis Unit := run (fun n changed => note n.id ({ · with mutableVars := some changed })) n

end Polyglot.Mutation
