import Polyglot.Emit.Target
import Polyglot.Emit.TypeFirst

/-!
# Kotlin

Operations on bits are methods, and what is printed is given a name first, because a text can hold names only.
-/
namespace Polyglot.Kotlin

open Session Emit Dialect Plugins

def types : List (String × String) :=
  [("bool", "Boolean"), ("int", "Int"), ("float", "Double"), ("bytes", "ByteArray"), ("str", "String")] ++
    fixedWidths ["Byte", "Short", "Int", "Long", "UByte", "UShort", "UInt", "ULong"]

def containers : List (String × String) :=
  [("List", "Array"), ("Dict", "Dict"), ("Set", "Set"), ("Optional", "Nothing")]

def ranks : List (String × Nat) :=
  ["Boolean", "Byte", "UByte", "Short", "UShort", "Int", "UInt", "Long", "ULong", "Float", "Double"].zipIdx

def keywords : List String :=
  ["abstract", "actual", "annotation", "as", "break", "by", "catch", "class", "companion", "const", "constructor",
   "continue", "crossinline", "data", "delegate", "do", "dynamic", "else", "enum", "expect", "external", "field",
   "file", "final", "finally", "for", "fun", "get", "if", "import", "in", "infix", "init", "inline", "inner",
   "interface", "internal", "is", "lateinit", "noinline", "object", "open", "operator", "out", "override",
   "package", "param", "private", "property", "protected", "public", "receiver", "reified", "return", "sealed",
   "set", "setparam", "super", "suspend", "tailrec", "this", "throw", "try", "typealias", "typeof", "val", "var",
   "vararg", "when", "where", "while"]

def style : TypeStyle :=
  { TypeStyle.combining (.text "") TypeStyle.angled with
    functionType := some fun args result => "(" ++ args ++ ") -> " ++ result }

/-- Small integers take part in operations as plain ones. -/
def promote : Option String → Option String
  | some "Byte" | some "Short" => some "Int"
  | some "UByte" | some "UShort" => some "UInt"
  | t => t

def native : NativeTypes := { NativeTypes.plain types ranks with promote := promote }

def install : Analysis Unit := Target.installMaps types containers

/-! ### Lowering -/

def bitMethod? : BinOp → Option String
  | .bitAnd => some "and"
  | .bitOr => some "or"
  | .bitXor => some "xor"
  | _ => none

def bitMethods : Lowering := fun self n => do
  match n.shape with
  | .binOp left op right =>
    match bitMethod? op with
    | none => return [n]
    | some name =>
      let func ← fresh (.attribute left name .load)
      let line ← lineOf n
      let col ← colOf n
      return [← place (← freshAt (some line) (some col) (.call func [right] []))]
  | _ => Lowering.through self n

/-- What is printed is given a name first, unless it has one or is a constant. -/
def namePrinted : Lowering := fun self n => do
  match n.shape with
  | .call func args kwds =>
    let func ← Lowering.one self func
    let n ← edit n (.call func args kwds)
    match func.ident?, args with
    | some "print", [a] =>
      if a.isName || a.isConstant then return [n]
      else
        let line := some (← lineOf n)
        let tmp ← Lowering.nameOn line ("__tmp" ++ toString (← nextTemporary "printed"))
        let set ← Lowering.assignOn line tmp a
        let n ← edit n (.call func [tmp] kwds)
        let b ← Lowering.block [set, n] n
        note b.id ({ · with bodyVars := some [some tmp.id] })
        return [b]
    | _, _ => return [n]
  | _ => Lowering.through self n

/-! ### Known functions -/

def range : Plugin := fun n vargs => do
  let (start, stop, step) ← rangeOf n vargs
  return some ("(" ++ start ++ ".." ++ stop ++ "-1" ++ step.elim "" (" step " ++ ·) ++ ")")

/-- Whether a text starts with something between two quotes on one line. -/
def startsQuoted (quote : Char) (s : String) : Bool :=
  match s.toList with
  | c :: cs => c == quote && (cs.takeWhile (· != '\n')).contains quote
  | [] => false

/-- A part of a printed text: a number or a constant text as it is, anything else by its name. -/
def printed (s : String) : String :=
  if Text.isDigits s then s
  else if startsQuoted '\'' s || startsQuoted '"' s then Text.dropLast (Text.dropStart s 1) 1
  else "$" ++ s

def printLine : Plugin := fun _ vargs => do
  let parts ← vargs.mapM fun v => do pure (printed (← present v))
  return some ("println(\"" ++ " ".intercalate parts ++ "\")")

def minMax (name : String) : Plugin := fun n vargs => do
  using_ ("kotlin.math." ++ name)
  match (callArgs n).head? with
  | none => fail .outOfRange
  | some a =>
    let _ ← style.ofHint a
    if (← factsOf a.id).container.isSome then return some ("maxOf(" ++ (← argAt vargs 0) ++ ")")
    else return some (name ++ "(" ++ (← join ", " vargs) ++ ")")

def plugins : Plugins where
  byName :=
    [("max", minMax "max"), ("min", minMax "min"), ("range", range), ("xrange", range), ("print", printLine),
     ("floor", fun _ vargs => do
        using_ "kotlin.math.floor"
        return some ("floor(" ++ (← argAt vargs 0) ++ ").toInt()"))]
  small :=
    [("str", optionalCall "" ".toString()" "\"\""), ("len", unaryCall "" ".size"),
     ("int", optionalCall "" ".toInt()" "0"), ("float", optionalCall "" ".toDouble()" "0.0"),
     ("bool", optionalCall "(" " != 0)" "false"), ("reversed", unaryCall "" ".reversed()")]
  byFunction := [("sys.exit", unaryCall "kotlin.system.exitProcess(" ")", true)]

/-! ### Rules -/

def renamed (id : String) : Emit (Option String) := do
  if keywords.contains id then return some (id ++ "_")
  else if id == "_" then return some (← TypeFirst.temporary)
  else return none

def param (n : Node) : Emit (TypeTerm × String) := do
  match n.shape with
  | .arg "self" _ => return (.absent, "self")
  | .arg id hint =>
    let id := (← renamed id).getD id
    let type ← if hint.isSome then style.ofHint n else pure (.text "T")
    return (type, id)
  | _ => fail .missingPart

def assignOne (visit : Visit) (n target : Node) : Emit (Option String) := do
  match n.shape with
  | .assign _ value =>
    let say (n : Node) : Emit String := return shown (← visit n)
    let scopes ← Scope.chainOf n
    let kw := if ← Scope.isMutable target.ident? scopes then "var " else "val "
    match target.shape with
    | .tuple es _ =>
      let names ← join ", " (← es.mapM visit)
      let v ← say value
      return some (kw ++ "(" ++ names ++ ") = " ++ (if value.isTuple then "Pair" else "") ++ v)
    | _ =>
      if let some id ← sharedTarget? visit scopes target then return some (kw ++ shown id ++ " = " ++ (← say value))
      else if target.isSubscript || target.isAttribute then
        let t ← say target
        return some (t ++ " = " ++ (← say value))
      else
        let definition ← Scope.findOutward scopes target.ident?
        if ← Scope.isSetBefore target definition n then
          let t ← say target
          return some (t ++ " = " ++ (← say value))
        else
          match value.shape with
          | .list es _ =>
            let elements ← join ", " (← es.mapM visit)
            return some (kw ++ (← say target) ++ " = arrayOf(" ++ elements ++ ")")
          | _ =>
            let t ← say target
            return some (kw ++ t ++ " = " ++ (← say value))
  | _ => fail .missingPart

def dialect (visit : Visit) : Dialect where
  visit := visit
  style := style
  separator := ""
  nothing := "null"
  bytes _ bs := return some (TypeFirst.quotedBytes bs)
  isIn := contained visit
  assignOne := assignOne visit
  importOne name := return some ("import " ++ name ++ ";")
  importFrom source names _ := return some (Text.lines (names.map fun name => "import " ++ source ++ "." ++ name))
  param := param
  makeBlock _ body := do
    return some (← join "\n" ([some "if (true) \x7b"] ++ (← body.mapM visit) ++ [some "\x7d"]))
  start := {}
  install := install

variable (visit : Visit)

def functionDef (n : Node) (f : Function Node) : Emit (Option String) := do
  let d := dialect visit
  let body ← d.lines f.body
  let ps ← TypeFirst.ownParams d n f
  let (types, generics) := paramTypes (ps.map (·.1))
  let args := (types.zip ps).map fun (t, (_, name)) => name ++ ": " ++ t
  let (result, generics) ← if ← Tracing.isVoid n then pure ("", generics)
    else do
      let told ← if f.returns.isSome then style.ofReturns n else pure .absent
      pure (if told.given then (": " ++ told.shown, generics) else (": RT", generics ++ ["RT"]))
  let template := if generics.isEmpty then "" else "<" ++ Text.commas generics ++ ">"
  return some ("fun " ++ f.name ++ template ++ "(" ++ Text.commas args ++ ")" ++ result ++ " \x7b\n" ++ body ++ "\x7d\n\n")

def member (n value : Node) (attr : String) : Emit (Option String) := do
  let v ← visit value
  if v == some "sys" && attr == "argv" then return some "(arrayOf(\"\") + argv)"
  else TypeFirst.member n v attr

def call (n func : Node) (args kwds : List Node) : Emit (Option String) := do
  let name ← visit func
  let grows ← match func.shape with
    | .attribute v _ _ => Tracing.isList v
    | _ => pure false
  let name ← if grows then do
      let s ← present name
      pure (some (if Text.endsWith s ".append" then Text.replaceAll s ".append" " +=" else s))
    else pure name
  let vargs ← (args ++ keywordValues kwds).mapM visit
  match ← plugins.dispatch n name vargs with
  | some s => return some s
  | none =>
    let args ← join ", " vargs
    let name ← present name
    return some (if Text.endsWith name "+=" then name ++ " " ++ args else name ++ "(" ++ args ++ ")")

def convert (text : String) (type : TypeTerm) : String := text ++ ".to" ++ type.shown ++ "()"

def binary (left : Node) (op : BinOp) (right : Node) : Emit (Option String) := do
  let d := dialect visit
  match left.shape, op, isWhole right with
  | .list es _, .mult, true =>
    let count ← d.say right
    match es.head? with
    | none => fail .outOfRange
    | some e => return some ("Array(" ++ count ++ ") \x7b " ++ (← d.say e) ++ " \x7d")
  | _, _, _ =>
    let l ← d.say left
    let r ← d.say right
    if op == .pow then return some ("pow(" ++ l ++ ", " ++ r ++ ")")
    else
      let lt ← style.ofHint left
      let rt ← style.ofHint right
      let lr ← native.termRank lt
      let rr ← native.termRank rt
      let r' := if lr > rr then convert r lt else r
      let l' := if rr > lr then convert l rt else l
      let symbol := d.binarySymbol op
      return some (if op == .mult || op == .div then "(" ++ l' ++ symbol ++ r' ++ ")"
        else "(" ++ l' ++ " " ++ symbol ++ " " ++ r' ++ ")")

def comparison (n left : Node) (op : CmpOp) (right : Node) : Emit (Option String) := do
  let d := dialect visit
  if op == .isIn then d.isIn n
  else
    let lt ← style.ofHint left
    let rt ← style.ofHint right
    let l ← d.say left
    let r ← d.say right
    let lr ← native.termRank lt
    let rr ← native.termRank rt
    let r' := if lr > rr && rr != 0 then convert r lt else r
    let l' := if rr > lr && lr != 0 then convert l rt else l
    return some (l' ++ " " ++ d.comparisonSymbol op ++ " " ++ r')

def enumClass (n : Node) (c : Class Node) (kind : EnumKind) : Emit (Option String) := do
  let fields := (← classValues visit n).zipIdx.map fun ((k, v), i) =>
    Text.times " " 16 ++ k ++ "(" ++ enumValue kind k v i ++ "),\n" ++ Text.times " " 12
  let type := if kind == .text then "String" else "Int"
  return some ("enum class " ++ c.name ++ "(val value: " ++ type ++ ") \x7b\n" ++ String.join fields ++ "\n\x7d")

def classDef (n : Node) : Emit (Option String) := do
  let d := dialect visit
  let (c, declarations) ← Members.declare d n
  match enumKind? c.bases with
  | some kind => enumClass visit n c kind
  | none =>
    let mutable ← if declarations.isEmpty then pure false else Scope.isMutable none (← Scope.chainOf n)
    let kw := if mutable then "var " else "val "
    let types := fieldTypes (declarations.map (·.2))
    let fields := (types.zip declarations).map fun (t, (name, _)) => kw ++ name ++ ": " ++ t
    Members.ownMethods c
    let body ← d.lines c.body
    if (← factsOf n.id).isDataclass == some true then
      return some ("data class " ++ c.name ++ "(" ++ Text.commas fields ++ ") \x7b\n" ++ body ++ "\n\x7d\n")
    else return some ("class " ++ c.name ++ " \x7b\n" ++ Text.lines fields ++ "\n\n " ++ body ++ "\n\x7d\n")

def item (n value index : Node) : Emit (Option String) := do
  let v := shown (← visit value)
  let i := shown (← visit index)
  if (← factsOf n.id).inHint then TypeFirst.hintItem v i "<" ">"
  else
    let _ ← TypeStyle.genericHint style.fallback value
    let container ← match ← hintOf value with
      | some t => do pure (← factsOf t.id).genericContainer
      | none => pure none
    match container with
    | some (.text "Dict", _) => return some (v ++ "[" ++ i ++ "]!!")
    | _ => return some (v ++ "[" ++ i ++ "]")

def step (n : Node) : Emit (Option String) := do
  let d := dialect visit
  match n.shape with
  | .functionDef f => functionDef visit n f
  | .ret value => convertedReturn visit native (style.ofReturns ·) (fun text type => text ++ " as " ++ type) n value
  | .lambda args body =>
    let (_, names) ← d.parameters args
    return some ("\x7b " ++ Text.commas names ++ " -> " ++ (← d.say body) ++ " \x7d")
  | .attribute value attr _ => member visit n value attr
  | .call func args kwds => call visit n func args kwds
  | .forLoop l =>
    let t ← d.say l.target
    let it ← d.say l.iter
    d.enclosed ("for (" ++ t ++ " in " ++ it ++ ") \x7b") l.body
  | .name "None" _ => return some "None"
  | .name id _ =>
    match ← renamed id with
    | some id => return some id
    | none => return plainName id
  | .cond test body orelse =>
    let _ ← sharedVars n
    d.branch n test body orelse true
  | .binOp left op right => binary visit left op right
  | .compare left (op :: _) (right :: _) => comparison visit n left op right
  | .classDef _ => classDef visit n
  | .list es _ => return some ("arrayOf(" ++ (← d.commas es) ++ ")")
  | .set es => return some ("setOf(" ++ (← d.commas es) ++ ")")
  | .dict keys values =>
    return some ("hashMapOf(" ++ Text.commas (← d.entries keys values fun k v => k ++ " to " ++ v) ++ ")")
  | .subscript value index _ => item visit n value index
  | .assert test _ => return some ("assert(" ++ (← d.say test) ++ ")")
  | .annAssign target _ value _ =>
    let t ← d.say target
    let type ← style.ofHint n
    let v ← match value with
      | some v => d.visit v
      | none => pure none
    return some ("var " ++ t ++ (if type == style.fallback then "" else ": " ++ type.shown) ++ " = " ++ shown v)
  | .raise (some e) _ => return some ("throw Exception(" ++ (← d.say e) ++ ")")
  | .raise none _ => return some "throw Exception()"
  | .ifExp test body orelse =>
    let b ← d.say body
    let o ← d.say orelse
    return some ("if (" ++ (← d.say test) ++ ") " ++ b ++ " else " ++ o)
  | _ => d.step n

def emit : Visit := Target.emitter step

def target : Target where
  language := .kotlin
  entryParams := ["argv"]
  lowerings := [("KotlinBitOpRewriter", bitMethods)]
  analyses _ := [native.infer]
  laterLowerings := [("KotlinPrintRewriter", namePrinted)]
  start _ := {}
  install := install
  emit := emit
  usings := Target.usingLines "import "

end Polyglot.Kotlin
