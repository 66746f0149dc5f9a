/-!
# Program trees

A program is a tree of nodes. `Shape` lists the kinds of node with their parts and is generic in what
stands for a child; `Node` closes the recursion and gives every node an identity and an optional place.
Two occurrences with one identity are the same node: what the analyses find out is kept per identity.
-/
namespace Polyglot

abbrev NodeId := Nat

inductive Literal where
  | nothing
  | ellipsis
  | bool (b : Bool)
  | int (n : Int)
  | float (x : Float)
  | imaginary (x : Float)
  | str (s : String)
  | bytes (bs : List UInt8)
  deriving Inhabited

inductive BinOp where
  | add | sub | mult | matMult | div | mod | pow | lShift | rShift | bitOr | bitXor | bitAnd | floorDiv
  deriving DecidableEq, Inhabited

inductive UnaryOp where
  | invert | not | plus | minus
  deriving DecidableEq, Inhabited

inductive CmpOp where
  | eq | notEq | lt | ltE | gt | gtE | same | notSame | isIn | notIn
  deriving DecidableEq, Inhabited

inductive BoolOp where
  | and | or
  deriving DecidableEq, Inhabited

/-- How a name, attribute, item or list is used. Nodes made by a lowering may leave it out, or hold the
bare word instead of the marker. -/
inductive Usage where
  | load | store | del | word | unset
  deriving DecidableEq, Inhabited

structure Function (α : Type) where
  name : String
  args : α
  body : List α
  decorators : List α
  returns : Option α

structure Class (α : Type) where
  name : String
  bases : List α
  keywords : List α
  body : List α
  decorators : List α

structure Loop (α : Type) where
  target : α
  iter : α
  body : List α
  orelse : List α

structure Attempt (α : Type) where
  body : List α
  handlers : List α
  orelse : List α
  final : List α

structure Parameters (α : Type) where
  posOnly : List α
  args : List α
  vararg : Option α
  kwOnly : List α
  kwDefaults : List (Option α)
  kwarg : Option α
  defaults : List α

inductive Shape (α : Type) where
  | module (body : List α)
  | functionDef (f : Function α)
  | asyncFunctionDef (f : Function α)
  | classDef (c : Class α)
  | ret (value : Option α)
  | delete (targets : List α)
  | assign (targets : List α) (value : α)
  | augAssign (target : α) (op : BinOp) (value : α)
  | annAssign (target hint : α) (value : Option α) (simple : Bool)
  | forLoop (l : Loop α)
  | asyncFor (l : Loop α)
  | whileLoop (test : α) (body orelse : List α)
  | cond (test : α) (body orelse : List α)
  | withBlock (items body : List α)
  | asyncWith (items body : List α)
  | matchOn (subject : α) (cases : List α)
  | raise (exc cause : Option α)
  | attempt (t : Attempt α)
  | attemptStar (t : Attempt α)
  | assert (test : α) (msg : Option α)
  | importNames (names : List α)
  | importFrom (source : Option String) (names : List α) (level : Nat)
  | global (names : List String)
  | nonlocal (names : List String)
  | exprStmt (value : α)
  | pass
  | breakLoop
  | continueLoop
  | boolOp (op : BoolOp) (values : List α)
  | namedExpr (target value : α)
  | binOp (left : α) (op : BinOp) (right : α)
  | unaryOp (op : UnaryOp) (operand : α)
  | lambda (args body : α)
  | ifExp (test body orelse : α)
  | dict (keys : List (Option α)) (values : List α)
  | set (elts : List α)
  | listComp (elt : α) (generators : List α)
  | setComp (elt : α) (generators : List α)
  | dictComp (key value : α) (generators : List α)
  | generatorExp (elt : α) (generators : List α)
  | await (value : α)
  | yield (value : Option α)
  | yieldFrom (value : α)
  | compare (left : α) (ops : List CmpOp) (comparators : List α)
  | call (func : α) (args keywords : List α)
  | formatted (value : α) (conversion : Option Char) (spec : Option α)
  | joinedStr (values : List α)
  | constant (value : Literal) (marked : Bool)
  | attribute (value : α) (attr : String) (usage : Usage)
  | subscript (value index : α) (usage : Usage)
  | starred (value : α) (usage : Usage)
  | name (id : String) (usage : Usage)
  | list (elts : List α) (usage : Usage)
  | tuple (elts : List α) (usage : Usage)
  | slice (lower upper step : Option α)
  | comprehension (target iter : α) (ifs : List α) (isAsync : Bool)
  | exceptHandler (type : Option α) (name : Option String) (body : List α)
  | parameters (p : Parameters α)
  | arg (name : String) (hint : Option α)
  | keyword (name : Option String) (value : α)
  | alias (name : String) (asName : Option String)
  | withItem (context : α) (vars : Option α)
  | matchCase (pattern : α) (guard : Option α) (body : List α)
  | matchValue (value : α)
  | matchSingleton (value : Literal)
  | matchSequence (patterns : List α)
  | matchMapping (keys patterns : List α) (rest : Option String)
  | matchClass (cls : α) (patterns : List α) (attrs : List String) (attrPatterns : List α)
  | matchStar (name : Option String)
  | matchAs (pattern : Option α) (name : Option String)
  | matchOr (patterns : List α)

/-- A node: its identity, where it stands (line from one, column in bytes from zero; a node made by a
lowering may stand nowhere), and its kind with its parts. -/
structure Node where
  id : NodeId
  line : Option Nat
  col : Option Nat
  shape : Shape Node

instance : Inhabited Node := ⟨⟨0, none, none, .pass⟩⟩

namespace Shape

variable {α β : Type}

def kindName : Shape α → String
  | .module .. => "Module"
  | .functionDef .. => "FunctionDef"
  | .asyncFunctionDef .. => "AsyncFunctionDef"
  | .classDef .. => "ClassDef"
  | .ret .. => "Return"
  | .delete .. => "Delete"
  | .assign .. => "Assign"
  | .augAssign .. => "AugAssign"
  | .annAssign .. => "AnnAssign"
  | .forLoop .. => "For"
  | .asyncFor .. => "AsyncFor"
  | .whileLoop .. => "While"
  | .cond .. => "If"
  | .withBlock .. => "With"
  | .asyncWith .. => "AsyncWith"
  | .matchOn .. => "Match"
  | .raise .. => "Raise"
  | .attempt .. => "Try"
  | .attemptStar .. => "TryStar"
  | .assert .. => "Assert"
  | .importNames .. => "Import"
  | .importFrom .. => "ImportFrom"
  | .global .. => "Global"
  | .nonlocal .. => "Nonlocal"
  | .exprStmt .. => "Expr"
  | .pass => "Pass"
  | .breakLoop => "Break"
  | .continueLoop => "Continue"
  | .boolOp .. => "BoolOp"
  | .namedExpr .. => "NamedExpr"
  | .binOp .. => "BinOp"
  | .unaryOp .. => "UnaryOp"
  | .lambda .. => "Lambda"
  | .ifExp .. => "IfExp"
  | .dict .. => "Dict"
  | .set .. => "Set"
  | .listComp .. => "ListComp"
  | .setComp .. => "SetComp"
  | .dictComp .. => "DictComp"
  | .generatorExp .. => "GeneratorExp"
  | .await .. => "Await"
  | .yield .. => "Yield"
  | .yieldFrom .. => "YieldFrom"
  | .compare .. => "Compare"
  | .call .. => "Call"
  | .formatted .. => "FormattedValue"
  | .joinedStr .. => "JoinedStr"
  | .constant .. => "Constant"
  | .attribute .. => "Attribute"
  | .subscript .. => "Subscript"
  | .starred .. => "Starred"
  | .name .. => "Name"
  | .list .. => "List"
  | .tuple .. => "Tuple"
  | .slice .. => "Slice"
  | .comprehension .. => "comprehension"
  | .exceptHandler .. => "ExceptHandler"
  | .parameters .. => "arguments"
  | .arg .. => "arg"
  | .keyword .. => "keyword"
  | .alias .. => "alias"
  | .withItem .. => "withitem"
  | .matchCase .. => "match_case"
  | .matchValue .. => "MatchValue"
  | .matchSingleton .. => "MatchSingleton"
  | .matchSequence .. => "MatchSequence"
  | .matchMapping .. => "MatchMapping"
  | .matchClass .. => "MatchClass"
  | .matchStar .. => "MatchStar"
  | .matchAs .. => "MatchAs"
  | .matchOr .. => "MatchOr"

/-- The children of a node from left to right, in the order of its parts. -/
def children : Shape α → List α
  | .module body => body
  | .functionDef f | .asyncFunctionDef f => f.args :: f.body ++ f.decorators ++ f.returns.toList
  | .classDef c => c.bases ++ c.keywords ++ c.body ++ c.decorators
  | .ret value | .yield value => value.toList
  | .delete targets => targets
  | .assign targets value => targets ++ [value]
  | .augAssign target _ value => [target, value]
  | .annAssign target hint value _ => target :: hint :: value.toList
  | .forLoop l | .asyncFor l => l.target :: l.iter :: l.body ++ l.orelse
  | .whileLoop test body orelse | .cond test body orelse => test :: body ++ orelse
  | .withBlock items body | .asyncWith items body => items ++ body
  | .matchOn subject cases => subject :: cases
  | .raise exc cause => exc.toList ++ cause.toList
  | .attempt t | .attemptStar t => t.body ++ t.handlers ++ t.orelse ++ t.final
  | .assert test msg => test :: msg.toList
  | .importNames names | .importFrom _ names _ => names
  | .global _ | .nonlocal _ | .pass | .breakLoop | .continueLoop => []
  | .exprStmt value | .await value | .yieldFrom value => [value]
  | .boolOp _ values | .joinedStr values => values
  | .namedExpr target value => [target, value]
  | .binOp left _ right => [left, right]
  | .unaryOp _ operand => [operand]
  | .lambda args body => [args, body]
  | .ifExp test body orelse => [test, body, orelse]
  | .dict keys values => keys.filterMap id ++ values
  | .set elts | .list elts _ | .tuple elts _ => elts
  | .listComp elt gens | .setComp elt gens | .generatorExp elt gens => elt :: gens
  | .dictComp key value gens => key :: value :: gens
  | .compare left _ comparators => left :: comparators
  | .call func args keywords => func :: args ++ keywords
  | .formatted value _ spec => value :: spec.toList
  | .constant .. | .name .. | .alias .. | .matchSingleton _ | .matchStar _ => []
  | .attribute value _ _ | .starred value _ => [value]
  | .subscript value index _ => [value, index]
  | .slice lower upper step => lower.toList ++ upper.toList ++ step.toList
  | .comprehension target iter ifs _ => target :: iter :: ifs
  | .exceptHandler type _ body => type.toList ++ body
  | .parameters p => p.posOnly ++ p.args ++ p.vararg.toList ++ p.kwOnly ++
      p.kwDefaults.filterMap id ++ p.kwarg.toList ++ p.defaults
  | .arg _ hint => hint.toList
  | .keyword _ value => [value]
  | .withItem context vars => context :: vars.toList
  | .matchCase pattern guard body => pattern :: guard.toList ++ body
  | .matchValue value => [value]
  | .matchSequence patterns | .matchOr patterns => patterns
  | .matchMapping keys patterns _ => keys ++ patterns
  | .matchClass cls patterns _ attrPatterns => cls :: patterns ++ attrPatterns
  | .matchAs pattern _ => pattern.toList

/-- Rebuilds a node part by part, left to right: `one` on a single child, `many` on a list of
children, which may grow or shrink. -/
def traverse {m : Type → Type} [Monad m] (one : α → m β) (many : List α → m (List β)) :
    Shape α → m (Shape β)
  | .module body => return .module (← many body)
  | .functionDef f => return .functionDef (← function f)
  | .asyncFunctionDef f => return .asyncFunctionDef (← function f)
  | .classDef c => do
    let bases ← many c.bases
    let keywords ← many c.keywords
    let body ← many c.body
    let decorators ← many c.decorators
    return .classDef { name := c.name, bases, keywords, body, decorators }
  | .ret value => return .ret (← value.mapM one)
  | .delete targets => return .delete (← many targets)
  | .assign targets value => return .assign (← many targets) (← one value)
  | .augAssign target op value => return .augAssign (← one target) op (← one value)
  | .annAssign target hint value simple =>
    return .annAssign (← one target) (← one hint) (← value.mapM one) simple
  | .forLoop l => return .forLoop (← loop l)
  | .asyncFor l => return .asyncFor (← loop l)
  | .whileLoop test body orelse => return .whileLoop (← one test) (← many body) (← many orelse)
  | .cond test body orelse => return .cond (← one test) (← many body) (← many orelse)
  | .withBlock items body => return .withBlock (← many items) (← many body)
  | .asyncWith items body => return .asyncWith (← many items) (← many body)
  | .matchOn subject cases => return .matchOn (← one subject) (← many cases)
  | .raise exc cause => return .raise (← exc.mapM one) (← cause.mapM one)
  | .attempt t => return .attempt (← trial t)
  | .attemptStar t => return .attemptStar (← trial t)
  | .assert test msg => return .assert (← one test) (← msg.mapM one)
  | .importNames names => return .importNames (← many names)
  | .importFrom source names level => return .importFrom source (← many names) level
  | .global names => return .global names
  | .nonlocal names => return .nonlocal names
  | .exprStmt value => return .exprStmt (← one value)
  | .pass => return .pass
  | .breakLoop => return .breakLoop
  | .continueLoop => return .continueLoop
  | .boolOp op values => return .boolOp op (← many values)
  | .namedExpr target value => return .namedExpr (← one target) (← one value)
  | .binOp left op right => return .binOp (← one left) op (← one right)
  | .unaryOp op operand => return .unaryOp op (← one operand)
  | .lambda args body => return .lambda (← one args) (← one body)
  | .ifExp test body orelse => return .ifExp (← one test) (← one body) (← one orelse)
  | .dict keys values => return .dict (← sparse keys) (← many values)
  | .set elts => return .set (← many elts)
  | .listComp elt gens => return .listComp (← one elt) (← many gens)
  | .setComp elt gens => return .setComp (← one elt) (← many gens)
  | .dictComp key value gens => return .dictComp (← one key) (← one value) (← many gens)
  | .generatorExp elt gens => return .generatorExp (← one elt) (← many gens)
  | .await value => return .await (← one value)
  | .yield value => return .yield (← value.mapM one)
  | .yieldFrom value => return .yieldFrom (← one value)
  | .compare left ops comparators => return .compare (← one left) ops (← many comparators)
  | .call func args keywords => return .call (← one func) (← many args) (← many keywords)
  | .formatted value conversion spec => return .formatted (← one value) conversion (← spec.mapM one)
  | .joinedStr values => return .joinedStr (← many values)
  | .constant value marked => return .constant value marked
  | .attribute value attr usage => return .attribute (← one value) attr usage
  | .subscript value index usage => return .subscript (← one value) (← one index) usage
  | .starred value usage => return .starred (← one value) usage
  | .name id usage => return .name id usage
  | .list elts usage => return .list (← many elts) usage
  | .tuple elts usage => return .tuple (← many elts) usage
  | .slice lower upper step => return .slice (← lower.mapM one) (← upper.mapM one) (← step.mapM one)
  | .comprehension target iter ifs isAsync =>
    return .comprehension (← one target) (← one iter) (← many ifs) isAsync
  | .exceptHandler type bound body => return .exceptHandler (← type.mapM one) bound (← many body)
  | .parameters p => do
    let posOnly ← many p.posOnly
    let args ← many p.args
    let vararg ← p.vararg.mapM one
    let kwOnly ← many p.kwOnly
    let kwDefaults ← sparse p.kwDefaults
    let kwarg ← p.kwarg.mapM one
    let defaults ← many p.defaults
    return .parameters { posOnly, args, vararg, kwOnly, kwDefaults, kwarg, defaults }
  | .arg id hint => return .arg id (← hint.mapM one)
  | .keyword id value => return .keyword id (← one value)
  | .alias id asName => return .alias id asName
  | .withItem context vars => return .withItem (← one context) (← vars.mapM one)
  | .matchCase pattern guard body =>
    return .matchCase (← one pattern) (← guard.mapM one) (← many body)
  | .matchValue value => return .matchValue (← one value)
  | .matchSingleton value => return .matchSingleton value
  | .matchSequence patterns => return .matchSequence (← many patterns)
  | .matchMapping keys patterns rest => return .matchMapping (← many keys) (← many patterns) rest
  | .matchClass cls patterns attrs attrPatterns =>
    return .matchClass (← one cls) (← many patterns) attrs (← many attrPatterns)
  | .matchStar id => return .matchStar id
  | .matchAs pattern id => return .matchAs (← pattern.mapM one) id
  | .matchOr patterns => return .matchOr (← many patterns)
where
  function (f : Function α) : m (Function β) := do
    let args ← one f.args
    let body ← many f.body
    let decorators ← many f.decorators
    let returns ← f.returns.mapM one
    return { name := f.name, args, body, decorators, returns }
  loop (l : Loop α) : m (Loop β) := do
    let target ← one l.target
    let iter ← one l.iter
    let body ← many l.body
    let orelse ← many l.orelse
    return { target, iter, body, orelse }
  trial (t : Attempt α) : m (Attempt β) := do
    let body ← many t.body
    let handlers ← many t.handlers
    let orelse ← many t.orelse
    let final ← many t.final
    return { body, handlers, orelse, final }
  sparse (xs : List (Option α)) : m (List (Option β)) :=
    xs.mapM fun x => x.mapM one

def body? : Shape α → Option (List α)
  | .module body | .whileLoop _ body _ | .cond _ body _ | .withBlock _ body | .asyncWith _ body
  | .exceptHandler _ _ body | .matchCase _ _ body => some body
  | .functionDef f | .asyncFunctionDef f => some f.body
  | .classDef c => some c.body
  | .forLoop l | .asyncFor l => some l.body
  | .attempt t | .attemptStar t => some t.body
  | _ => none

end Shape

namespace Node

def kindName (n : Node) : String := n.shape.kindName

def children (n : Node) : List Node := n.shape.children

def withShape (n : Node) (s : Shape Node) : Node := { n with shape := s }

/-- The name by which a node is known: of a name, parameter, import, function or class, or the dotted
path of an attribute (in which a part without a name reads `None`). -/
def ident? : Node → Option String
  | ⟨_, _, _, .alias name _⟩ => some name
  | ⟨_, _, _, .name id _⟩ => some id
  | ⟨_, _, _, .arg name _⟩ => some name
  | ⟨_, _, _, .functionDef f⟩ => some f.name
  | ⟨_, _, _, .classDef c⟩ => some c.name
  | ⟨_, _, _, .attribute value attr _⟩ => some (value.ident?.getD "None" ++ "." ++ attr)
  | _ => none

def isExpression (n : Node) : Bool :=
  match n.shape with
  | .boolOp .. | .namedExpr .. | .binOp .. | .unaryOp .. | .lambda .. | .ifExp .. | .dict .. | .set .. | .listComp ..
  | .setComp .. | .dictComp .. | .generatorExp .. | .await .. | .yield .. | .yieldFrom .. | .compare .. | .call ..
  | .formatted .. | .joinedStr .. | .constant .. | .attribute .. | .subscript .. | .starred .. | .name .. | .list ..
  | .tuple .. | .slice .. => true
  | _ => false

def isFunction (n : Node) : Bool := n.shape matches .functionDef _
def isClass (n : Node) : Bool := n.shape matches .classDef _
def isName (n : Node) : Bool := n.shape matches .name ..
def isConstant (n : Node) : Bool := n.shape matches .constant ..
def isCall (n : Node) : Bool := n.shape matches .call ..
def isAttribute (n : Node) : Bool := n.shape matches .attribute ..
def isSubscript (n : Node) : Bool := n.shape matches .subscript ..
def isTuple (n : Node) : Bool := n.shape matches .tuple ..
def isList (n : Node) : Bool := n.shape matches .list ..
def isDict (n : Node) : Bool := n.shape matches .dict ..
def isSet (n : Node) : Bool := n.shape matches .set ..
def isCond (n : Node) : Bool := n.shape matches .cond ..
def isStarred (n : Node) : Bool := n.shape matches .starred ..
def isFor (n : Node) : Bool := n.shape matches .forLoop _

end Node

/-- Runs `step` with itself as its recursive call, at most `n` calls deep; deeper calls go to `stop`. -/
def tie {α β : Type} (step : (α → β) → α → β) (stop : α → β) : Nat → α → β
  | 0 => stop
  | n + 1 => step (tie step stop n)

/-- How deep programs may nest before they are refused. -/
@[irreducible] def nestingLimit : Nat := 1000

end Polyglot
