import Polyglot.Emit.Offside
import Polyglot.Emit.Target
import Polyglot.Lowering.Numbers

/-!
# Nim

Parameters that are not changed take open arrays for lists.
-/
namespace Polyglot.Nim

open Session Emit Dialect Plugins

def types : List (String × String) :=
  [("int", "int"), ("float", "float64"), ("bytes", "openArray[byte]"), ("str", "string"), ("bool", "bool")] ++
    fixedWidths ["int8", "int16", "int32", "int64", "uint8", "uint16", "uint32", "uint64"]

def containers : List (String × String) :=
  [("List", "seq"), ("Dict", "Table"), ("Set", "set"), ("Optional", "Option")]

def keywords : List String :=
  ["addr", "and", "as", "asm", "bind", "block", "break", "case", "cast", "concept", "const", "continue",
   "converter", "defer", "discard", "distinct", "div", "do", "elif", "else", "end", "enum", "except", "export",
   "finally", "for", "from", "func", "if", "import", "in", "include", "interface", "is", "isnot", "iterator",
   "let", "macro", "method", "mixin", "mod", "nil", "not", "notin", "object", "of", "or", "out", "proc", "ptr",
   "raise", "ref", "return", "shl", "shr", "static", "template", "try", "tuple", "type", "using", "var", "when",
   "while", "xor", "yield"]

def style : TypeStyle := TypeStyle.combining (.text "var") TypeStyle.squared

def native : NativeTypes := NativeTypes.plain types Offside.ranks

def install : Analysis Unit := Target.installMaps types containers

/-! ### Known functions -/

def range : Plugin := fun n vargs => do
  match ← rangeOf n vargs with
  | (start, stop, none) => return some ("(" ++ start ++ ".." ++ stop ++ " - 1)")
  | (start, stop, some step) => return some ("countup(" ++ start ++ ", " ++ stop ++ " - 1, " ++ step ++ ")")

def printLine : Plugin := fun _ vargs => do
  return some ("echo " ++ (← join ", \" \", " vargs))

def plugins : Plugins where
  byName := [("range", range), ("xrange", range), ("print", printLine)]
  small := Offside.conversions "false" "float"
  byFunction := [("sys.exit", unaryCall "quit(" ")", true)]

/-! ### Rules -/

def param (n : Node) : Emit (TypeTerm × String) := do
  match n.shape with
  | .arg "self" _ => return (.absent, "self")
  | .arg id none => return (.text "T", id)
  | .arg id (some hint) =>
    let mutable ← Scope.isMutable (some id) (← Scope.chainOf n)
    let type ← style.ofHint n
    let type ← if hint.isSubscript && !mutable then match type with
        | .text s => pure (.text (Text.replaceAll s "seq" "openArray"))
        | _ => fail .missingPart
      else pure type
    return (if mutable then .text ("var " ++ type.shown) else type, id)
  | _ => fail .missingPart

def bitWord : BinOp → Option String
  | .bitXor => some "xor"
  | .bitOr => some "or"
  | .bitAnd => some "and"
  | op => Symbols.common.binary op

def dialect (visit : Visit) : Dialect :=
  { Offside.dialect visit style install with
    symbols := Offside.symbols bitWord
    ellipsis := return some "discard"
    param := param
    ignoredModules := Calls.ignoredModules.filter (· != "math") }

variable (visit : Visit)

def functionDef (n : Node) (f : Function Node) : Emit (Option String) := do
  let d := dialect visit
  let body ← f.body.mapM fun b => do Offside.indent 1 (← require (← d.visit b))
  let args ← Offside.signature d n f
  let result ← if ← Tracing.isVoid n then pure ""
    else if f.returns.isSome then do pure (": " ++ (← Offside.resultType d n f))
    else pure ""
  let tail := if (← factsOf n.id).isEntry then "\nmain()" else ""
  return some ("proc " ++ f.name ++ "(" ++ Text.commas (args.map fun (name, t) => name ++ ": " ++ t) ++ ")" ++ result ++
    " =\n" ++ Text.lines body ++ "\n" ++ tail)

def layoutClass (n : Node) (c : Class Node) (fields : List (String × String)) : Emit (Option String) := do
  let level ← Offside.levelOf n
  let head ← Offside.indent (level + 1) (c.name ++ " = object\n")
  let lines ← fields.mapM fun (name, type) => Offside.indent (level + 2) (name ++ ": " ++ type)
  let body ← (dialect visit).lines c.body
  return some ("type\n" ++ head ++ Text.lines lines ++ "\n" ++ body ++ "\n")

def variableWord : List NodeId → Option String → Emit String := Offside.variableWord "let"

def step (n : Node) : Emit (Option String) := do
  let d := dialect visit
  match n.shape with
  | .pass => return some "discard"
  | .functionDef f => functionDef visit n f
  | .ret (some v) => return some (← Offside.returnValue d native n v)
  | .lambda args body =>
    let (_, names) ← d.parameters args
    let args := Text.commas (names.map (· ++ ": int"))
    return some ("proc(" ++ args ++ "):int = return " ++ (← d.say body))
  | .attribute value attr _ =>
    Offside.member d value attr do
      return if (← Tracing.isList value) && attr == "append" then "add" else attr
  | .call func args kwds => Offside.call d plugins n func args kwds ": "
  | .classDef _ => Offside.classDef d n (layoutClass visit n)
  | .list es _ => return some ("@[" ++ (← d.commas es) ++ "]")
  | .dict keys values =>
    using_ "tables"
    return some ("\x7b" ++ Text.commas (← d.entries keys values fun k v => k ++ ": " ++ v) ++ "\x7d.newTable")
  | .assert test _ => return some ("assert(" ++ (← d.say test) ++ ")")
  | .annAssign target _ value _ =>
    let (t, type, v) ← d.declaration n target value
    let kw ← variableWord (← Scope.chainOf n) t
    return some (kw ++ " " ++ shown t ++ (if type == style.fallback then "" else ": " ++ type.shown) ++ " = " ++ shown v)
  | .assign targets value =>
    Offside.assignments n targets fun target => do
      let kw ← variableWord (← Scope.chainOf n) target.ident?
      Offside.assignOne d n target value (kw ++ " ") (return fun t v => kw ++ " " ++ t ++ " = " ++ v)
  | _ => Offside.colonStep d native keywords "^" n

def emit : Visit := Target.emitter step

def target : Target where
  language := .nim
  lowerings := [("NimNoneCompareRewriter", Numbers.zeroForNothing)]
  analyses _ := [native.infer]
  start o := { indentUnit := (o.indent.getD 2).toNat }
  install := install
  emit := emit
  usings := Target.usingLines "import "

end Polyglot.Nim
