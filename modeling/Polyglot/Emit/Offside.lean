import Polyglot.Emit.TypeFirst

/-!
# Blocks by indentation

What languages have in common whose blocks are written one level deeper than the line that opens them. Every
line of a block is indented by the level of the statement it belongs to; the statement itself is not, because
that is for the enclosing block to do.
-/
namespace Polyglot.Offside

open Session Emit Dialect Plugins

def indent (level : Nat) (line : String) : Emit String := do
  return Text.times " " ((← get).indentUnit * level) ++ line

def levelOf (n : Node) : Emit Nat := do
  match (← factsOf n.id).level with
  | some l => return l
  | none => fail .missingPart

/-- Words of the source language that cannot be names in its relatives. -/
def sourceKeywords : List String := Grammar.reserved ++ ["case", "match"]

def ranks : List (String × Nat) :=
  ["bool", "int8", "uint8", "int16", "uint16", "int32", "uint32", "int64", "uint64", "float32", "float64"].zipIdx ++
    [("float", 9)]

/-- Names that are keywords are marked, and those that start with a line are not named at all. -/
def name (keywords : List String) (id : String) : Option String :=
  if id == "None" then some "nil"
  else if keywords.contains id then some (id ++ "_")
  else if Text.startsWith id "_" then some "_"
  else plainName id

def symbols (binary : BinOp → Option String := Symbols.common.binary) (not : String := "not ") : Symbols :=
  { Symbols.common with
    binary
    unary := fun op => if op == .not then some not else Symbols.common.unary op
    logic := fun op => some (if op == .and then " and " else " or ") }

def isIn (visit : Visit) (style : TypeStyle) (n : Node) : Emit (Option String) := do
  match n.shape with
  | .compare left _ (right :: _) =>
    let l ← visit left
    let r ← visit right
    if (← style.ofHint left).isText "string" then using_ "strutils"
    return some (shown l ++ " in " ++ shown r)
  | _ => fail .outOfRange

/-- The decisions that these languages share where they do not say otherwise. -/
def dialect (visit : Visit) (style : TypeStyle) (install : Analysis Unit) : Dialect where
  visit := visit
  style := style
  symbols := symbols
  separator := ""
  comment text := "# " ++ text ++ "\n"
  nothing := "nil"
  ellipsis := return some "pass"
  bytes _ bs := return some (TypeFirst.quotedBytes bs)
  isIn := isIn visit style
  importOne name := return some ("import " ++ name)
  importFrom source names _ := return some ("from " ++ source ++ " import " ++ Text.commas names)
  param := TypeFirst.param style
  ignoredModules := Calls.ignoredModules.filter fun m => m != "math" && m != "sys"
  start := { indentUnit := 2 }
  install := install

/-- Conversions; `no` is the value of none, `float` the type of floating-point numbers. -/
def conversions (no float : String) : List (String × Plugin) :=
  [("str", optionalCall "$(" ")" "\"\""), ("bool", optionalCall "bool(" ")" no), ("int", optionalCall "int(" ")" "0"),
   ("floor", unaryCall "int(floor(" "))"), ("float", optionalCall (float ++ "(") ")" "0.0")]

/-- Whether a variable changes decides between two words for it. -/
def variableWord (constant : String) (scopes : List NodeId) (name : Option String) : Emit String := do
  return if ← Scope.isMutable name scopes then "var" else constant

variable (d : Dialect)

def inner (n : Node) (body : List Node) : Emit (List String) :=
  body.mapM fun b => do
    let text ← d.visit b
    indent ((← levelOf n) + 1) (← require text)

/-- Parameters with their types; the object itself has the type of its class. -/
def signature (n : Node) (f : Function Node) : Emit (List (String × String)) := do
  let (ts, names) ← d.parameters f.args
  let ts := match ts, (← factsOf n.id).selfType with
    | _ :: rest, some self => TypeTerm.text self :: rest
    | ts, _ => ts
  return names.zip (ts.map TypeTerm.shown)

def resultType (n : Node) (f : Function Node) : Emit String := do
  if f.returns.isSome then return (← d.style.ofReturns n).shown else return ""

def returnValue (native : NativeTypes) (n value : Node) (moved : String := "") : Emit String := do
  let text ← d.visit value
  match ← Scope.functionOf (← Scope.chainOf n) with
  | none => return "return " ++ shown text
  | some f =>
    let result ← d.style.ofReturns f
    let type ← native.typeOf value
    let text ← if moved.isEmpty then pure (shown text) else do pure ((← require text) ++ moved)
    match type with
    | some t => if result.isText t then return "return " ++ text else return "return " ++ result.shown ++ "(" ++ text ++ ")"
    | none => return "return " ++ text

def member (value : Node) (attr : String) (rename : Emit String := return attr) : Emit (Option String) := do
  let v ← d.visit value
  if v == some "sys" && attr == "argv" then
    using_ "os"
    return some "(@[getAppFilename()] & commandLineParams())"
  else
    let attr ← rename
    return some (v.getD "" ++ "." ++ attr)

def objectLiteral (n cls : Node) (name : String) (args kwds : List Node) (sep : String) : Emit (Option String) := do
  let plain ← (args.zip (← declaredBy cls n)).mapM fun (a, (member, _)) => do pure (member ++ ": " ++ (← d.say a))
  let named ← kwds.mapM fun k => do
    match k.shape with
    | .keyword key v => pure (key.getD "None" ++ sep ++ (← d.say v))
    | _ => fail .missingPart
  return some (name ++ "(" ++ Text.commas (plain ++ named) ++ ")")

/-- A call; `before` says what stands before a call of a definition that is not known better. -/
def call (plugins : Plugins) (n func : Node) (args kwds : List Node) (sep : String)
    (before : Option Node → Emit String := fun _ => return "") : Emit (Option String) := do
  let name ← d.visit func
  let definition ← Scope.find (← Scope.chainOf n) name
  let literal := match definition with
    | some c => if c.isClass then some c else none
    | none => none
  match literal with
  | some c => objectLiteral d n c (shown name) args kwds sep
  | none =>
    let vargs ← d.visitAll (args ++ keywordValues kwds)
    match ← plugins.dispatch n name vargs with
    | some s => return some s
    | none =>
      let before ← before definition
      return some (before ++ shown name ++ "(" ++ (← join ", " vargs) ++ ")")

/-- A branch of which the parts are put together by `layout`: the test, the block, and the other block. -/
def branch (n test : Node) (body orelse : List Node) (head : String → String → String) (other : String → String) :
    Emit (Option String) := do
  let _ ← sharedVars n
  let body ← inner d n body
  let rest ← inner d n orelse
  let test ← d.say test
  let tail ← if orelse.isEmpty then pure "" else do indent (← levelOf n) (other (Text.lines rest))
  return some (head test (Text.lines body) ++ tail)

def enumClass (n : Node) (c : Class Node) (kind : EnumKind) : Emit (Option String) := do
  let fields := (← classValues d.visit n).map fun (k, v) => enumField k v
  match kind with
  | .flag =>
    let head ← indent 1 (c.name ++ " = enum")
    return some (Text.lines ["type", head, Text.lines (← fields.mapM (indent 2)), ""])
  | _ => return some ("type " ++ c.name ++ " = enum\n" ++ Text.lines (← fields.mapM (indent 1)) ++ "\n\n")

def classDef (n : Node) (layout : Class Node → List (String × String) → Emit (Option String)) :
    Emit (Option String) := do
  let (c, declarations) ← Members.declare d n
  match enumKind? c.bases with
  | some kind => enumClass d n c kind
  | none =>
    Members.ownMethods c
    layout c ((declarations.map (·.1)).zip (fieldTypes (declarations.map (·.2))))

/-- A structure with variables; what decorates the class stands before it. -/
def structure_ (n : Node) (c : Class Node) (fields : List (String × String)) : Emit (Option String) := do
  let decorators := c.decorators.map fun x =>
    if x.ident? == some "dataclass" then "@value\n" else "@<ast." ++ n.kindName ++ " object>\n"
  let level ← if fields.isEmpty then pure 0 else levelOf n
  let lines ← fields.mapM fun (name, type) => indent (level + 1) ("var " ++ name ++ ": " ++ type)
  let body ← d.lines c.body
  return some (String.join decorators ++ "struct " ++ c.name ++ ":\n" ++ Text.lines lines ++ "\n\n" ++ body)

def assignments (n : Node) (targets : List Node) (one : Node → Emit String) : Emit (Option String) := do
  match ← targets.mapM one with
  | [] => return some ""
  | [line] => return some line
  | line :: rest =>
    let level ← levelOf n
    return some (Text.lines (line :: (← rest.mapM (indent level))))

/-- Assigns to a target. `open_` stands before several targets at once and before a variable that both ways of a
branch set; `declare` says how a new variable is written. -/
def assignOne (n target value : Node) (open_ : String) (declare : Emit (String → String → String)) : Emit String := do
  match target.shape with
  | .tuple es _ =>
    let names ← d.commas es
    return open_ ++ "(" ++ names ++ ") = " ++ (← d.say value)
  | _ =>
    let scopes ← Scope.chainOf n
    match ← sharedTarget? d.visit scopes target with
    | some id => return open_ ++ shown id ++ " = " ++ (← d.say value)
    | none =>
      let set ← if target.isSubscript || target.isAttribute then pure true
        else do Scope.isSetBefore target (← Scope.findOutward scopes target.ident?) n
      let layout ← if set then pure (fun t v => t ++ " = " ++ v) else declare
      let t ← d.say target
      return layout t (← d.say value)

/-- The operands of an operation and their types, the one of lower rank converted to the type of the other. -/
def operands (native : NativeTypes) (left right : Node) : Emit (String × String × TypeTerm) := do
  let l ← d.say left
  let r ← d.say right
  let lt ← d.typeOf left
  let rt ← d.typeOf right
  let lr ← native.termRank lt
  let rr ← native.termRank rt
  let r' := if lr > rr then lt.shown ++ "(" ++ r ++ ")" else r
  let l' := if rr > lr then rt.shown ++ "(" ++ l ++ ")" else l
  return (l', r', if lr ≥ rr then lt else rt)

/-- What is written the same in all of these languages. -/
def step (n : Node) : Emit (Option String) := do
  match n.shape with
  | .constant .nothing _ => return some "nil"
  | .yield none => return some "yield nil"
  | .yield (some v) => return some ("yield " ++ (← d.say v))
  | .ifExp test body orelse =>
    let b ← d.say body
    let o ← d.say orelse
    return some ("if " ++ (← d.say test) ++ ": " ++ b ++ " else: " ++ o)
  | _ => d.step n

def colonStep (native : NativeTypes) (keywords : List String) (power : String) (n : Node) : Emit (Option String) := do
  match n.shape with
  | .ret none => return some "return"
  | .forLoop l =>
    let t ← d.say l.target
    let it ← d.say l.iter
    return some (Text.lines (("for " ++ t ++ " in " ++ it ++ ":") :: (← inner d n l.body)))
  | .whileLoop test body _ =>
    let head := "while " ++ (← d.say test) ++ ":"
    return some (Text.lines (head :: (← inner d n body)))
  | .name id _ => return name keywords id
  | .cond test body orelse =>
    branch d n test body orelse (fun t b => "if " ++ t ++ ":\n" ++ b ++ "\n") ("else:\n" ++ ·)
  | .binOp left .pow right =>
    let l ← d.say left
    return some (l ++ power ++ (← d.say right))
  | .binOp left op right =>
    let (l, r, _) ← operands d native left right
    return some ("(" ++ l ++ " " ++ d.binarySymbol op ++ " " ++ r ++ ")")
  | .set es =>
    using_ "sets"
    return some ("toHashSet([" ++ (← d.commas es) ++ "])")
  | .subscript value index _ => TypeFirst.item d n value index "[" "]"
  | _ => step d n

/-! ### Lowering -/

/-- Every class has a way to make its objects. -/
def implicitConstructor : Lowering := fun self n => do
  match n.shape with
  | .classDef c =>
    let plain := c.decorators.all fun x => x.ident? != some "dataclass"
    let made := c.body.any fun b => match b.shape with
      | .functionDef f => f.name == "__init__"
      | _ => false
    if plain && !made then
      match (← readProgram "def __init__(self): pass").shape with
      | .module (f :: _) => return [← edit n (.classDef { c with body := f :: c.body })]
      | _ => fail .outOfRange
    else return [n]
  | _ => Lowering.through self n

/-- Marks where a function returns a parameter itself, and that parameter. -/
def moves : Lowering := fun self n => do
  match n.shape with
  | .arg .. =>
    note n.id ({ · with isArgument := true })
    return [n]
  | .ret none => return [n]
  | .ret (some value) =>
    let scopes ← Scope.chainOf n
    match ← Scope.functionOf scopes with
    | none => return [n]
    | some f =>
      let id := (← current value).ident?
      let found ← Scope.find scopes id
      let definition := match found, f.shape with
        | some d, _ => some d
        | none, .functionDef g =>
          match g.args.shape with
          | .parameters p => p.args.find? fun a => a.ident? == id
          | _ => none
        | none, _ => none
      match definition with
      | some d =>
        if (← factsOf d.id).isArgument then
          note n.id ({ · with transfer := true })
          note d.id ({ · with owned := true })
      | none => pure ()
      return [n]
  | _ => Lowering.through self n

end Polyglot.Offside
