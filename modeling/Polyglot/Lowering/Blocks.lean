import Polyglot.Lowering.Destructuring
import Polyglot.Typing.Inference

/-!
# Blocks

Managed blocks become plain ones, made blocks are opened into the body around them, and the else part of a
loop becomes a branch on whether the loop was left early.
-/
namespace Polyglot.Blocks

open Session Lowering

def openManaged (lang : Language) : Lowering := fun self n => do
  match n.shape with
  | .withBlock .. =>
    if lang == .python || lang == .v then return [n]
    else
      let n ← descend self n
      match n.shape with
      | .withBlock items body =>
        let line ← lineOf n
        let stmts ← items.mapM fun i => do
          match (← current i).shape with
          | .withItem context vars =>
            let target ← match vars with
              | some t => pure t
              | none => nameOn (some line) (← Destructuring.temporary lang "managed")
            assignOn (some line) target context
          | _ => fail .wrongSort
        let b ← block (stmts ++ body) n
        note b.id ({ · with unpack := some false })
        return [b]
      | _ => fail .wrongSort
  | _ => through self n

def dropTypeHook : Lowering := fun self n => do
  match n.shape with
  | .functionDef f => return if f.name == "__class_getitem__" then [] else [n]
  | _ => through self n

def opened : Nat → List Node → Analysis (List Node)
  | 0, _ => fail .tooDeep
  | k + 1, body => do
    return (← body.mapM fun s => do
      let s ← current s
      match s.shape with
      | .cond _ inner _ =>
        if (← isBlock s) && (← factsOf s.id).unpack.getD true then opened k inner else pure [s]
      | _ => pure [s]).flatten

def openMade : Lowering := fun self n => do
  match n.shape with
  | .functionDef f => return [← edit n (.functionDef { f with body := ← opened nestingLimit f.body })]
  | .forLoop l => return [← edit n (.forLoop { l with body := ← opened nestingLimit l.body })]
  | .cond t body orelse => return [← edit n (.cond t (← opened nestingLimit body) orelse)]
  | .withBlock items body => return [← edit n (.withBlock items (← opened nestingLimit body))]
  | .whileLoop t body orelse => return [← edit n (.whileLoop t (← opened nestingLimit body) orelse)]
  | _ => through self n

/-! ### Loops that are left early -/

def leftEarly : String := "has_break"

/-- Remembers for a loop with an else part the branch that replaces it. -/
def prepareLoop (n : Node) (orelse : List Node) : Analysis Unit := do
  match orelse with
  | [] => pure ()
  | first :: _ =>
    let line ← lineOf (← current first)
    let scopes := (← Scope.chain? n).getD []
    let name ← fresh (.name leftEarly .unset)
    let yes ← fresh (.constant (.bool true) false)
    let test ← fresh (.compare name [.notEq] [yes])
    let b ← freshAt (some line) none (.cond test orelse [])
    note test.id ({ · with scopes := some scopes })
    note yes.id ({ · with scopes := some scopes })
    note n.id ({ · with afterLoop := some b.id })

def isLoop (n : Node) : Bool := n.shape matches .forLoop _ | .whileLoop ..

/-- What becomes of a statement of a body: the value that the mark has to have before it, if any, and the statement
with what follows it. -/
def markStep (scopes : List NodeId) (s : Node) : Analysis (Option Bool × List Node) := do
  let s ← current s
  match (← factsOf s.id).afterLoop with
  | some b => return (some false, [s, ← nodeOf b])
  | none =>
    if s.shape matches .breakLoop then
      match ← Scope.findByKind isLoop scopes with
      | some loop => return (if (← factsOf loop.id).afterLoop.isSome then some true else none, [s])
      | none => return (none, [s])
    else return (none, [s])

def newMark (scopes : List NodeId) (value : Bool) : Analysis Node := do
  let name ← freshAt (some 1) (some 0) (.name leftEarly .unset)
  note name.id ({ · with scopes := some scopes })
  let v ← fresh (.constant (.bool value) false)
  note v.id ({ · with scopes := some scopes })
  freshAt (some 1) (some 0) (.assign [name] v)

/-- A body with the mark set before loops and breaks. One assignment serves the whole body, so the last value
counts. -/
def markBody (n : Node) (body : List Node) : Analysis (List Node) := do
  let scopes := (← Scope.chain? n).getD []
  let steps ← body.mapM (markStep scopes)
  match (steps.filterMap (·.1)).getLast? with
  | none => return (steps.map (·.2)).flatten
  | some value =>
    let mark ← newMark scopes value
    return (steps.map fun (set, ss) => if set.isSome then mark :: ss else ss).flatten

def markBlock (self : Node → Analysis (List Node)) (n : Node) : Analysis (List Node) := do
  let n ← descend self n
  let body ← markBody n ((n.shape.body?).getD [])
  let shape := match n.shape with
    | .module _ => .module body
    | .functionDef f => .functionDef { f with body }
    | .cond t _ orelse => .cond t body orelse
    | .withBlock items _ => .withBlock items body
    | .forLoop l => .forLoop { l with body }
    | .whileLoop t _ orelse => .whileLoop t body orelse
    | s => s
  return [← edit n shape]

def elseOfLoops : Lowering := fun self n => do
  match n.shape with
  | .module _ | .functionDef _ | .cond .. | .withBlock .. => markBlock self n
  | .forLoop l =>
    prepareLoop n l.orelse
    markBlock self n
  | .whileLoop _ _ orelse =>
    prepareLoop n orelse
    markBlock self n
  | _ => through self n

/-! ### Declared assignments -/

/-- Whether a target already has a type of this name where it stands. -/
def isDeclared (n ann target : Node) : Analysis Bool := do
  match ← Scope.findOutward (← Scope.chainOf n) target.ident? with
  | some d =>
    if d.id == target.id then return false
    else return (← Inference.typeOf d).bind Node.ident? == ann.ident?
  | none => return ann.ident?.isNone

/-- The declarations for the targets of an assignment; a single target that is declared needs none. -/
def declarations (n ann value : Node) (single : Bool) : List Node → Analysis (Option (List Node))
  | [] => return some []
  | t :: ts => do
    let t ← current t
    let declared ← isDeclared n ann t
    if declared && single then return none
    else
      let line ← lineOf n
      let shape := if declared then .assign [t] value else .annAssign t ann (some value) true
      let s ← freshAt (some line) n.col shape
      return (← declarations n ann value single ts).map (s :: ·)

/-- Turns an assignment whose target has a known type into a declaration, unless the target was declared
before with this type. -/
def declareTypes : Lowering := fun self n => do
  match n.shape with
  | .assign targets value =>
    match ← targets.head?.mapM current with
    | none => fail .outOfRange
    | some target =>
      match target.isSubscript, ← hintOf target with
      | true, _ | _, none => return [n]
      | false, some ann =>
        let ann ← if ann.isClass then typeName (ann.ident?.getD "") else pure ann
        match ← declarations n ann value (targets.length == 1) targets with
        | none => return [n]
        | some [s] => return [s]
        | some ss => return [← block ss n]
  | _ => through self n

end Polyglot.Blocks
