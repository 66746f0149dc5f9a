import Polyglot.Session

/-!
# Scopes

A node lies in a chain of scopes, outermost first. Looking a name up goes from the innermost scope outwards
and in each scope first through the variables recorded for it, then through the statements of its body.
-/
namespace Polyglot

open Session

def Node.opensScope (n : Node) : Bool :=
  match n.shape with
  | .module _ | .classDef _ | .functionDef _ | .lambda .. | .forLoop _ | .cond .. | .withBlock .. => true
  | _ => false

namespace Scope

/-- The chain of a node; nodes that no pass has seen have none. -/
def chainOf (n : Node) : Analysis (List NodeId) := do
  match (← factsOf n.id).scopes with
  | some s => return s
  | none => fail .missingPart

def chain? (n : Node) : Analysis (Option (List NodeId)) := return (← factsOf n.id).scopes

def outer (scopes : List NodeId) : Analysis (List NodeId) :=
  if scopes.isEmpty then fail .outOfRange else return scopes.dropLast

def innermost (scopes : List NodeId) : Analysis Node :=
  match scopes.getLast? with
  | some id => nodeOf id
  | none => fail .outOfRange

def firstNamed (name : Option String) : List (Option NodeId) → Analysis (Option Node)
  | [] => return none
  | none :: rest => if name.isNone then return none else firstNamed name rest
  | some id :: rest => do
    let n ← nodeOf id
    if n.ident? == name then return some n else firstNamed name rest

def firstNamedIn (name : Option String) (ns : List Node) : Analysis (Option Node) :=
  firstNamed name (ns.map fun n => some n.id)

def findIn (name : Option String) (id : NodeId) : Analysis (Option Node) := do
  let f ← factsOf id
  let tables := [f.vars, f.bodyVars, f.elseVars].filterMap (fun t => t)
  match ← tables.findSomeM? (firstNamed name) with
  | some n => return some n
  | none =>
    match (← nodeOf id).shape.body? with
    | some body => firstNamedIn name body
    | none => return none

def findFrom (name : Option String) : List NodeId → Analysis (Option Node)
  | [] => return none
  | id :: rest => do
    match ← findIn name id with
    | some n => return some n
    | none =>
      -- nothing can be seen through a lambda
      if (← nodeOf id).shape matches .lambda .. then return none else findFrom name rest

/-- The definition of a name as seen from a chain of scopes. Of nodes without a name the first one is found
by looking up no name. -/
def find (scopes : List NodeId) (name : Option String) : Analysis (Option Node) :=
  findFrom name scopes.reverse

def findImportFrom (name : String) : List NodeId → Analysis (Option Node)
  | [] => return none
  | id :: rest => do
    match (← factsOf id).imports with
    | none => findImportFrom name rest
    | some imports =>
      match ← firstNamed (some name) (imports.map some) with
      | some n => return some n
      | none => findImportFrom name rest

def findImport (scopes : List NodeId) (name : String) : Analysis (Option Node) :=
  findImportFrom name scopes.reverse

/-- The definition of a name as seen from outside the innermost scope, or else from inside it. -/
def findOutward (scopes : List NodeId) (name : Option String) : Analysis (Option Node) := do
  match ← find (← outer scopes) name with
  | some n => return some n
  | none => find scopes name

/-- The class or imported name that a name stands for, seen from the outermost scope inwards. -/
def classOrModule? (name : Option String) : List NodeId → Analysis (Option Node)
  | [] => return none
  | id :: rest => do
    match (← nodeOf id).shape.body? with
    | none => classOrModule? name rest
    | some body =>
      let body ← body.mapM current
      match body.find? fun n => n.isClass && n.ident? == name with
      | some n => return some n
      | none =>
        match (← factsOf id).imports with
        | none => classOrModule? name rest
        | some imports =>
          match ← firstNamed name (imports.map some) with
          | some n => return some n
          | none => classOrModule? name rest

def isClassOrModule (name : Option String) (scopes : List NodeId) : Analysis Bool :=
  return (← classOrModule? name scopes).isSome

def enumBases (name : Option String) (scopes : List NodeId) : Analysis (List String) := do
  match ← classOrModule? name scopes with
  | some ⟨_, _, _, .classDef c⟩ =>
    let bases := c.bases.filterMap Node.ident?
    return ["Enum", "IntEnum", "IntFlag"].filter bases.contains
  | _ => return []

def isEnum (name : Option String) (scopes : List NodeId) : Analysis Bool :=
  return !(← enumBases name scopes).isEmpty

def firstParameter? (n : Node) : Option Node :=
  match n.shape with
  | .functionDef f =>
    match f.args.shape with
    | .parameters p => p.args.head?
    | _ => none
  | _ => none

/-- Whether a name is how some method in view calls its own object. -/
def isSelfArg (name : Option String) : List NodeId → Analysis Bool
  | [] => return false
  | id :: rest => do
    match (← nodeOf id).shape.body? with
    | none => isSelfArg name rest
    | some body =>
      let hit ← body.anyM fun n => do
        let n ← current n
        match firstParameter? n with
        | some a => return a.ident? == name && (← factsOf n.id).selfType.isSome
        | none => return false
      if hit then return true else isSelfArg name rest

def isGlobal (n : Node) : Analysis Bool := do
  return (← innermost (← chainOf n)).shape matches .module _

def isMutable (name : Option String) : List NodeId → Analysis Bool
  | [] => return false
  | id :: rest => do
    if (← nodeOf id).isFunction then
      match (← factsOf id).mutableVars with
      | none => fail .missingPart
      | some vars => if vars.contains name then return true else isMutable name rest
    else isMutable name rest

def functionOf : List NodeId → Analysis (Option Node)
  | [] => return none
  | id :: rest => do
    let n ← nodeOf id
    if n.isFunction then return some n else functionOf rest

def definedBefore (d : Option Node) (n : Node) : Analysis Bool := do
  match d with
  | none => fail .missingPart
  | some d => return (← lineOf d) < (← lineOf n)

def isSetBefore (target : Node) (d : Option Node) (n : Node) : Analysis Bool :=
  if target.isName then definedBefore d n else return false

/-- Searches a statement for a node of some kind: the statement itself, its condition or range, and its body. -/
def findAt (p : Node → Bool) (findIn : List Node → Analysis (Option Node)) (n : Node) : Analysis (Option Node) := do
  let n ← current n
  if p n then return some n
  else
    match n.shape with
    | .exprStmt v =>
      let v ← current v
      if p v then return some v else return none
    | .forLoop l | .asyncFor l =>
      let i ← current l.iter
      if p i then return some i else findIn l.body
    | .whileLoop t body _ | .cond t body _ =>
      let t ← current t
      if p t then return some t else findIn body
    | .assert t _ =>
      let t ← current t
      if p t then return some t else return none
    | s =>
      match s.body? with
      | some body => findIn body
      | none => return none

def findInBody (p : Node → Bool) : Nat → List Node → Analysis (Option Node)
  | 0, _ => fail .tooDeep
  | k + 1, body => body.reverse.findSomeM? (findAt p (findInBody p k))

def findByKindFrom (p : Node → Bool) : List NodeId → Analysis (Option Node)
  | [] => return none
  | id :: rest => do
    let n ← nodeOf id
    if p n then return some n
    else
      match n.shape.body? with
      | some body =>
        match ← findInBody p nestingLimit body with
        | some found => return some found
        | none => findByKindFrom p rest
      | none =>
        -- the body of a lambda is no list that could be searched
        if n.shape matches .lambda .. then fail .wrongSort else findByKindFrom p rest

def findByKind (p : Node → Bool) (scopes : List NodeId) : Analysis (Option Node) :=
  findByKindFrom p scopes.reverse

end Scope
end Polyglot
