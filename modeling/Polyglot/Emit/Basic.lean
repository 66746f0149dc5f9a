import Polyglot.Analysis.Tracing
import Polyglot.Lowering.Basic
import Polyglot.Typing.Native

/-!
# Emitting code

A page is what an emitter has collected so far besides the text itself: what the text needs to have imported,
and the switches that shape it. Emitting a node gives its text, or no text at all; where a text without content
is put into a line, the line reads `None`.
-/
namespace Polyglot

open Session

structure CommandOption where
  name : String
  type : String
  default : String
  help : String
  letter : String
  deriving Inhabited

structure Page where
  session : Session := {}
  headers : List String := []
  usings : List String := []
  aliases : List (String × String) := []
  imported : Known.Locals := []
  features : List String := []
  allows : List String := []
  neighbours : List String := []
  /-- Whether a construct that the target lacks is a fault; else it becomes a comment. -/
  strict : Bool := true
  extension : Bool := false
  bare : Bool := false
  moduleName : Option String := none
  file : Option String := none
  temporaries : Nat := 0
  indentUnit : Nat := 4
  testCases : Bool := false
  mentionsAny : Bool := false
  showsAny : Bool := false
  /-- Whether the definition of values of any type is found elsewhere. -/
  sharesAny : Bool := false
  /-- Whether only what a function demands of its arguments is written. -/
  onlyDemands : Bool := false
  classes : List String := []
  numberEnums : List String := []
  textEnums : List String := []
  commandOptions : List (String × List CommandOption) := []
  deriving Inhabited

abbrev Emit := EStateM Fault Page

instance : MonadLift Analysis Emit where
  monadLift act := fun p =>
    let s := p.session
    let p := { p with session := {} }
    match act s with
    | .ok a s => .ok a { p with session := s }
    | .error e s => .error e { p with session := s }

abbrev Visit := Node → Emit (Option String)

namespace Emit

def shown (t : Option String) : String := t.getD "None"

def join (sep : String) (ts : List (Option String)) : Emit String := do
  let ts ← ts.mapM fun t => match t with
    | some s => pure s
    | none => fail .wrongSort
  return sep.intercalate ts

def require (t : Option String) : Emit String :=
  match t with
  | some s => return s
  | none => fail .wrongSort

/-- A text on which something is done; there has to be one. -/
def present (t : Option String) : Emit String :=
  match t with
  | some s => return s
  | none => fail .missingPart

def insertNew (x : String) (xs : List String) : List String := if xs.contains x then xs else xs ++ [x]

def using_ (name : String) : Emit Unit := modify fun p => { p with usings := insertNew name p.usings }

def sorted (xs : List String) : List String := xs.mergeSort

def refuse {α : Type} (text : String) (n : Node) : Emit α := throwAt .unsupported (some text) n

/-- Emits a node on behalf of an enclosing one: a fault that names no node yet is put at this one. -/
def guarded {α : Type} (n : Node) (act : Emit α) : Emit α := do
  try act
  catch f => if f.isSettled then throw f else throwAt .unsupported f.text n

/-- The types of fixed width of the source, with the names that a target has for them. -/
def fixedWidths (names : List String) : List (String × String) :=
  ["ctypes.c_byte", "ctypes.c_short", "ctypes.c_int", "ctypes.c_long", "ctypes.c_ubyte", "ctypes.c_ushort",
   "ctypes.c_uint", "ctypes.c_ulong"].zip names

def emptyNode : Fault := ⟨.emptyNode, some "node can not be None", none⟩

/-- Runs an emitter on a page of its own, of which only what it learns about nodes is kept. -/
def aside {α : Type} (start : Page) (act : Emit α) : Emit α := fun p =>
  let s := p.session
  let p := { p with session := {} }
  match act { start with session := s } with
  | .ok a q => .ok a { p with session := q.session }
  | .error e q => .error e { p with session := q.session }

def argAt (vargs : List (Option String)) (i : Nat) : Emit String :=
  match vargs[i]? with
  | some t => return shown t
  | none => fail .outOfRange

end Emit

structure Symbols where
  binary : BinOp → Option String
  unary : UnaryOp → Option String
  comparison : CmpOp → Option String
  logic : BoolOp → Option String

namespace Symbols

def common : Symbols where
  binary
    | .mult => some "*" | .add => some "+" | .sub => some "-" | .div => some "/" | .floorDiv => some "/"
    | .mod => some "%" | .lShift => some "<<" | .rShift => some ">>" | .bitXor => some "^" | .bitOr => some "|"
    | .bitAnd => some "&" | .pow | .matMult => none
  unary
    | .not => some "!" | .minus => some "-" | .invert | .plus => none
  comparison
    | .eq | .same => some "==" | .notEq | .notSame => some "!=" | .lt => some "<" | .gt => some ">"
    | .gtE => some ">=" | .ltE => some "<=" | .isIn => some "in" | .notIn => none
  logic
    | .and => some "&&" | .or => some "||"

end Symbols
end Polyglot
