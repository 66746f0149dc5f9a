import Std.Data.TreeMap
import Polyglot.TypeTerm
import Polyglot.Tree.Grammar

/-!
# Sessions

A session holds what is known about the nodes of the programs at hand. `nodes` has the current content of
every node, `facts` what the analyses have found out about it. Both go by identity, so a node that stands
in several places is one node. A pass works on a tree; whatever it changes it records here, and `refresh`
brings a tree up to date.
-/
namespace Polyglot

/-- How a target names types: known classes by name, containers by name, and what it writes when it knows
no type. -/
structure TypeMaps where
  types : List (String × String)
  containers : List (String × String)
  fallback : TypeTerm
  deriving Inhabited

inductive Member where
  | named (id : Option String)
  | target (n : NodeId)
  deriving DecidableEq, Inhabited

structure Facts where
  scopes : Option (List NodeId) := none
  vars : Option (List (Option NodeId)) := none
  bodyVars : Option (List (Option NodeId)) := none
  elseVars : Option (List (Option NodeId)) := none
  /-- The inferred annotation, which may be known to be none. -/
  hint : Option (Option NodeId) := none
  assignedFrom : Option NodeId := none
  calls : Option (List NodeId) := none
  calledWith : Option (List NodeId) := none
  definedFunctions : Option (List NodeId) := none
  imports : Option (List NodeId) := none
  importedFrom : Option NodeId := none
  isTarget : Bool := false
  level : Option Nat := none
  raises : Bool := false
  mutableVars : Option (List (Option String)) := none
  inHint : Bool := false
  lifetime : Option Lifetime := none
  inferred : Bool := false
  container : Option (TypeTerm × TypeTerm) := none
  genericContainer : Option (TypeTerm × TypeTerm) := none
  resultType : Option Bool := none
  docstring : Option String := none
  isEntry : Bool := false
  rewritten : Bool := false
  unpack : Option Bool := none
  afterLoop : Option NodeId := none
  unused : Bool := false
  commonVars : Option (List (Option String)) := none
  declarations : Option (List (String × TypeTerm)) := none
  declaredDefaults : Option (List (String × TypeTerm × Option NodeId)) := none
  classAssignments : Option (List (Member × Option NodeId)) := none
  isDataclass : Option Bool := none
  selfType : Option String := none
  classAssignment : Bool := false
  /-- The type that the target infers, which may be known to be none. -/
  targetType : Option (Option String) := none
  integerDivision : Bool := false
  noReturn : Option Bool := none
  wrapsResult : Bool := false
  returnNeedsReference : Option Bool := none
  needsReference : Option Bool := none
  needsDereference : Bool := false
  isPrecondition : Bool := false
  isArgument : Bool := false
  transfer : Bool := false
  owned : Bool := false
  needsErrorType : Bool := false
  isNested : Bool := false
  isBlock : Option Bool := none
  callableType : Option NodeId := none
  needsAnyToString : Bool := false
  rawString : Bool := false
  deriving Inhabited

structure Session where
  next : NodeId := 1
  nodes : Std.TreeMap NodeId Node := {}
  facts : Std.TreeMap NodeId Facts := {}
  /-- The scopes that are open, outermost first. A pass that fails leaves its scopes open. -/
  openScopes : List NodeId := []
  maps : TypeMaps := ⟨[], [], .text "auto"⟩
  /-- Whether an integer of fixed width was declared since types were last inferred. -/
  fixedWidth : Bool := false
  temporaries : List (String × Nat) := []
  /-- Names that a lowering replaces by expressions. A pass that fails leaves them in force. -/
  replaced : List (String × String) := []
  deriving Inhabited

abbrev Analysis := EStateM Fault Session

namespace Session

def fail {α : Type} (c : Cause) : Analysis α := throw (.bare c)

def factsOf (id : NodeId) : Analysis Facts := return (← get).facts.getD id {}

def note (id : NodeId) (f : Facts → Facts) : Analysis Unit :=
  modify fun s => { s with facts := s.facts.insert id (f (s.facts.getD id {})) }

def current (n : Node) : Analysis Node := return (← get).nodes.getD n.id n

def nodeOf (id : NodeId) : Analysis Node :=
  return (← get).nodes.getD id default

def record (n : Node) : Analysis Unit :=
  modify fun s => { s with nodes := s.nodes.insert n.id n }

def fresh (shape : Shape Node) : Analysis Node := do
  let s ← get
  let n : Node := ⟨s.next, none, none, shape⟩
  set { s with next := s.next + 1, nodes := s.nodes.insert n.id n }
  return n

def freshAt (line col : Option Nat) (shape : Shape Node) : Analysis Node := do
  let n ← fresh shape
  let n := { n with line, col }
  record n
  return n

def edit (n : Node) (shape : Shape Node) : Analysis Node := do
  let n := n.withShape shape
  record n
  return n

def recordAll : Nat → Node → Analysis Unit
  | 0, _ => fail .tooDeep
  | k + 1, n => do
    record n
    n.children.forM (recordAll k)

def readProgram (source : String) : Analysis Node := do
  match Grammar.read (← get).next source with
  | .error f => throw f
  | .ok (n, next) =>
    modify fun s => { s with next }
    recordAll nestingLimit n
    return n

def adoptFrom : Nat → Node → Analysis Node
  | 0, _ => fail .tooDeep
  | k + 1, n => do
    let shape ← n.shape.traverse (adoptFrom k) (fun ns => ns.mapM (adoptFrom k))
    freshAt n.line n.col shape

def readFirst (source : String) : Analysis Node := do
  match Grammar.read 0 source with
  | .error f => throw f
  | .ok (n, _) =>
    match n.shape with
    | .module (b :: _) =>
      match b.shape with
      | .exprStmt v | .ret (some v) | .assign _ v | .augAssign _ _ v | .annAssign _ _ (some v) _ =>
        adoptFrom nestingLimit v
      | _ => fail .missingPart
    | _ => fail .outOfRange

def readExpression (source : String) : Analysis Node := do
  match (← readProgram source).shape with
  | .module [⟨_, _, _, .exprStmt v⟩] => return v
  | _ => fail .malformed

def refreshFrom : Nat → Node → Analysis Node
  | 0, _ => fail .tooDeep
  | k + 1, n => do
    let n ← current n
    let shape ← n.shape.traverse (refreshFrom k) (fun ns => ns.mapM (refreshFrom k))
    let n := n.withShape shape
    record n
    return n

def refresh (n : Node) : Analysis Node := refreshFrom nestingLimit n

def lineOf (n : Node) : Analysis Nat :=
  match n.line with
  | some l => return l
  | none => fail .missingPart

def colOf (n : Node) : Analysis Nat :=
  match n.col with
  | some c => return c
  | none => fail .missingPart

/-- A fault at a node; a node that stands nowhere cannot be reported. -/
def throwAt {α : Type} (c : Cause) (text : Option String) (n : Node) : Analysis α := do
  let line ← lineOf n
  let col ← colOf n
  throw ⟨c, text, some (line, col)⟩

def placeable (n : Node) : Bool :=
  match n.shape with
  | .module _ | .comprehension .. | .parameters _ | .withItem .. | .matchCase .. => false
  | _ => true

/-- Gives the nodes that stand nowhere the place of what encloses them. -/
def placeFrom : Nat → Nat → Nat → Node → Analysis Node
  | 0, _, _, _ => fail .tooDeep
  | k + 1, line, col, n => do
    let n ← current n
    let l := if placeable n then n.line.getD line else line
    let c := if placeable n then n.col.getD col else col
    let shape ← n.shape.traverse (placeFrom k l c) (fun ns => ns.mapM (placeFrom k l c))
    let n : Node := if placeable n then ⟨n.id, some l, some c, shape⟩ else n.withShape shape
    record n
    return n

def place (n : Node) : Analysis Node := placeFrom nestingLimit 1 0 n

/-- The annotation of a node: a parameter or an annotated assignment carries its own, other nodes one that
was inferred. The outer option says whether there is any mention of one. -/
def hint? (n : Node) : Analysis (Option (Option Node)) := do
  match (← current n).shape with
  | .arg _ a => return some (← a.mapM current)
  | .annAssign _ a _ _ => return some (some (← current a))
  | _ =>
    match (← factsOf n.id).hint with
    | none => return none
    | some none => return some none
    | some (some id) => return some (some (← nodeOf id))

def hintOf (n : Node) : Analysis (Option Node) := return (← hint? n).join

def hasHint (n : Node) : Analysis Bool := return (← hint? n).isSome

def annotate (n : Node) (a : Node) : Analysis Unit := note n.id ({ · with hint := some (some a.id) })

def nextTemporary (kind : String) : Analysis Nat := do
  let s ← get
  let n := (s.temporaries.lookup kind).getD 0 + 1
  set { s with temporaries := (kind, n) :: s.temporaries.filter (·.1 != kind) }
  return n

def typeName (id : String) : Analysis Node := fresh (.name id .unset)

end Session
end Polyglot
