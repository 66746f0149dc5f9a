import Polyglot.Emit.TypeFirst
import Polyglot.Emit.Target
import Polyglot.Typing.Spelling

/-!
# Julia

Blocks end with a word, ranges include their end, and a method is a function that takes the object first. A
condition has to be a truth value, so that other conditions are turned into comparisons.
-/
namespace Polyglot.Julia

open Session Emit Dialect Plugins

def types : List (String × String) :=
  [("bool", "Bool"), ("int", "Int64"), ("float", "Float64"), ("bytes", "Array\x7bUInt8\x7d"), ("str", "String")] ++
    fixedWidths ["Int8", "Int16", "Int32", "Int64", "UInt8", "UInt16", "UInt32", "UInt64"]

def containers : List (String × String) :=
  [("List", "Array"), ("Dict", "Dict"), ("Set", "Set"), ("Optional", "Nothing")]

def ranks : List (String × Nat) :=
  ["Bool", "Int8", "UInt8", "Int16", "UInt16", "Int32", "UInt32", "Int64", "UInt64", "Float32", "Float64"].zipIdx

def keywords : List String :=
  ["abstract", "baremodule", "begin", "break", "catch", "const", "continue", "do", "else", "elseif", "end",
   "export", "false", "finally", "for", "function", "global", "if", "import", "let", "local", "macro", "module",
   "mutable", "primitive", "quote", "return", "struct", "true", "try", "type", "using", "while"]

def braced (value index : TypeTerm) : Analysis TypeTerm :=
  return .text (value.shown ++ "\x7b" ++ index.shown ++ "\x7d")

def style : TypeStyle := { TypeStyle.combining (.text "") braced with containers := some containers }

/-- Bytes have another name where native types are inferred. -/
def native : NativeTypes :=
  NativeTypes.plain (("bytes", "Vector\x7bUInt8\x7d") :: types.filter (·.1 != "bytes")) ranks

def install : Analysis Unit := Target.installTypes types

/-- Infers types, and marks operations that are operands of another one. -/
def infer (n : Node) : Analysis Unit := do
  let rule : Inference.Rule := fun self n => do
    native.binOpRule self n
    match n.shape with
    | .binOp l _ r =>
      for operand in [l, r] do
        if (← current operand).shape matches .binOp .. then note operand.id ({ · with isNested := true })
    | _ => pure ()
  let _ ← Inference.infer { native.rules with binOp := rule } n

def symbols : Symbols :=
  { Symbols.common with
    binary := fun op => if op == .bitXor then some "⊻" else Symbols.common.binary op
    comparison := fun op => match op with
      | .same => some "==="
      | .notSame => some "!=="
      | op => Symbols.common.comparison op }

/-! ### Lowering -/

def lessOne (n : Node) (call : Node) : Analysis Node := do
  let line ← lineOf call
  let col ← colOf call
  annotate n (← typeName "int")
  let scopes ← Scope.chainOf n
  let one ← fresh (.constant (.int 1) false)
  annotate one (← typeName "int")
  note one.id ({ · with scopes := some scopes })
  let less ← freshAt (some line) (some col) (.binOp n .sub one)
  note less.id ({ · with scopes := some scopes })
  return less

/-- Ranges end one earlier, and a range that goes down has its ends exchanged. -/
def inclusiveRanges : Lowering := fun self n => do
  match n.shape with
  | .call .. =>
    let n ← Lowering.descend self n
    match n.shape with
    | .call func args kwds =>
      if func.ident? == some "range" || func.ident? == some "xrange" then
        let args ← match args with
          | [] => pure []
          | [stop] => pure [← lessOne stop n]
          | start :: stop :: rest => pure (start :: (← lessOne stop n) :: rest)
        let args := match args with
          | [start, stop, ⟨i, l, c, .unaryOp .minus x⟩] => [stop, start, ⟨i, l, c, .unaryOp .minus x⟩]
          | args => args
        return [← edit n (.call func args kwds)]
      else return [n]
    | _ => return [n]
  | _ => Lowering.through self n

def methodsToFunctions : Lowering := fun self n => do
  match n.shape with
  | .call .. =>
    let n ← Lowering.descend self n
    match n.shape with
    | .call ⟨_, _, _, .attribute value attr usage⟩ args kwds =>
      let name ← do
        if (← Tracing.isList value) && attr == "append" then pure "push!" else pure attr
      let line := some (← lineOf n)
      let object ← match value.ident? with
        | some id => if id.isEmpty then pure value else Lowering.nameOn line id
        | none => pure value
      if usage == .unset then fail .missingPart
      else
        let func ← freshAt line none (.name name usage)
        return [← edit n (.call func (object :: args) kwds)]
    | _ => return [n]
  | _ => Lowering.through self n

def compared (test : Node) (op : CmpOp) (with_ : Shape Node) : Analysis Node := do
  let other ← place (← fresh with_)
  let scopes ← Scope.chainOf test
  note other.id ({ · with scopes := some scopes })
  let line ← lineOf test
  let col ← colOf test
  let c ← freshAt (some line) (some col) (.compare test [op] [other])
  note c.id ({ · with scopes := some scopes })
  return c

def anyTruth (n test : Node) : Analysis Node := do
  let instanceOf (type : Analysis Node) : Analysis Node := do
    let func ← typeName "isinstance"
    let c ← fresh (.call func [test, ← type] [])
    match (← factsOf n.id).scopes with
    | some scopes => note c.id ({ · with scopes := some scopes })
    | none => pure ()
    return c
  let both (xs : List Node) : Analysis Node := fresh (.boolOp .and xs)
  let numbers : Analysis Node := do
    let int ← typeName "int"
    fresh (.tuple [int, ← typeName "float"] .unset)
  let number ← both [← instanceOf numbers, ← compared test .notEq (.constant (.int 0) false)]
  let tuple ← both [← instanceOf (typeName "tuple"), ← compared test .notEq (.tuple [] .unset)]
  let list ← both [← instanceOf (typeName "list"), ← compared test .notEq (.list [] .unset)]
  let nothing ← both [← compared test .same (.constant .nothing false)]
  let truth ← both [← instanceOf (typeName "bool"), test]
  let result ← fresh (.boolOp .or [number, tuple, list, nothing, truth])
  let _ ← place test
  return result

def isOne : Literal → Bool
  | .bool b => b
  | .int n => n == 1
  | .float x => x == 1
  | .str s => s == "1"
  | _ => false

def isZero : Literal → Bool
  | .bool b => !b
  | .int n => n == 0
  | .float x | .imaginary x => x == 0
  | _ => false

def spelling : Spelling := { openBracket := "\x7b", closeBracket := "\x7d" }

def truthOf (n test : Node) : Analysis Node := do
  let test ← current test
  match test.shape with
  | .compare .. | .unaryOp .. => return test
  | shape =>
    let settled : Option Bool := match shape with
      | .constant v _ => if isOne v then some true else if isZero v then some false else none
      | _ => none
    match settled, shape with
    | some b, .constant _ kind => edit test (.constant (.bool b) kind)
    | _, _ =>
      let type ← match ← hintOf test with
        | none => pure ""
        | some t =>
          match spelling.text (← refresh t) with
          | .ok s => pure s
          | .error f => throw f
      let among (names : List String) : Bool := names.any (Text.startsWith type)
      if type.isEmpty then anyTruth n test
      else if type == "bool" then return test
      else if type == "int" || type == "float" then compared test .notEq (.constant (.int 0) false)
      else if among ["list", "List"] then compared test .notSame (.list [] .unset)
      else if among ["tuple", "Tuple"] then compared test .notSame (.tuple [] .unset)
      else if among ["set", "Set"] then compared test .notSame (.set [])
      else if among ["Optional"] then compared test .notSame (.constant .nothing false)
      else anyTruth n test

/-- A comparison with nothing is one of identity. -/
def byIdentity : CmpOp → CmpOp
  | .eq => .same
  | .notEq => .notSame
  | op => op

def isNothing (n : Node) : Bool := n.shape matches .constant .nothing _

def truthValues : Lowering := fun self n => do
  match n.shape with
  | .cond .. | .whileLoop .. =>
    let n ← Lowering.descend self n
    match n.shape with
    | .cond test body orelse => return [← edit n (.cond (← truthOf n test) body orelse)]
    | .whileLoop test body orelse => return [← edit n (.whileLoop (← truthOf n test) body orelse)]
    | _ => return [n]
  | .compare .. =>
    let n ← Lowering.descend self n
    match n.shape with
    | .compare left ops cs =>
      if isNothing left || cs.any isNothing then return [← edit n (.compare left (ops.map byIdentity) cs)]
      else return [n]
    | _ => return [n]
  | _ => Lowering.through self n

/-! ### Known functions -/

def range : Plugin := fun n vargs => do
  match vargs with
  | [stop] => return some ("0:" ++ shown stop)
  | _ =>
    let start ← argAt vargs 0
    let stop ← argAt vargs 1
    let step ← if (callArgs n).length == 3 then match vargs[2]? with
        | some t => pure (t.getD "")
        | none => fail .outOfRange
      else pure ""
    return some (if step.isEmpty then start ++ ":" ++ stop else start ++ ":" ++ step ++ ":" ++ stop)

def integer : Plugin := fun n vargs => do
  if vargs.isEmpty then return some "0"
  else
    match (callArgs n).head? with
    | none => fail .outOfRange
    | some a =>
      let float ← match ← style.ofHint a with
        | .text s => pure (Text.startsWith s "Float")
        | .absent => pure false
        | _ => fail .missingPart
      let v ← argAt vargs 0
      return some (if float then "Int64(floor(" ++ v ++ "))" else "Int64(" ++ v ++ ")")

def printLine : Plugin := fun _ vargs => do
  return some ("println(join([" ++ (← join ", " vargs) ++ "], \" \"))")

def plugins : Plugins where
  byName := [("range", range), ("xrange", range), ("print", printLine), ("int", integer)]
  small :=
    [("str", optionalCall "string(" ")" "\"\""), ("len", unaryCall "length(" ")"),
     ("enumerate", unaryCall "" ".iter().enumerate()"), ("sum", unaryCall "" ".iter().sum()"),
     ("bool", optionalCall "Bool(" ")" "false"), ("floor", unaryCall "Int64(floor(" "))")]
  byFunction := [("sys.exit", unaryCall "quit(" ")", true)]

/-! ### Rules -/

/-- Bytes as a text of them, of which those that are no ASCII are escaped. -/
def bytesText (bs : List UInt8) : String :=
  let one (b : UInt8) : String :=
    if b.toNat < 128 then (Char.ofNat b.toNat).toString else "\\x" ++ Text.hex b.toNat
  "b\"" ++ Text.replaceAll (String.join (bs.map one)) "\"" "\\\"" ++ "\""

def assignOne (visit : Visit) (n target : Node) : Emit (Option String) := do
  match n.shape with
  | .assign _ value =>
    let say (n : Node) : Emit String := return shown (← visit n)
    match target.shape with
    | .tuple es _ =>
      let names ← es.mapM visit
      let v ← say value
      return some ((← join ", " names) ++ " = " ++ v)
    | _ =>
      let scopes ← Scope.chainOf n
      if let some id ← sharedTarget? visit scopes target then return some (shown id ++ " = " ++ (← say value))
      else
        let again ← if target.isSubscript || target.isAttribute then pure false
          else do Scope.isSetBefore target (← Scope.findOutward scopes target.ident?) n
        let t ← say target
        return some (t ++ " = " ++ (← say value) ++ (if again then ";" else ""))
  | _ => fail .missingPart

def dialect (visit : Visit) : Dialect where
  visit := visit
  style := style
  symbols := symbols
  comment text := "# " ++ text
  nothing := "nothing"
  bytes _ bs := return some (bytesText bs)
  assignOne := assignOne visit
  importOne name := return some ("import " ++ name)
  importFrom source names _ :=
    return some ("using " ++ Text.replaceAll source "." "::" ++ ": " ++ Text.commas names)
  param := TypeFirst.param style
  start := {}
  install := install

variable (visit : Visit)

def functionDef (n : Node) (f : Function Node) : Emit (Option String) := do
  let d := dialect visit
  let body ← d.lines f.body
  let (ts, names) ← d.parameters f.args
  let facts ← factsOf n.id
  let ts := match ts, facts.selfType with
    | .absent :: rest, some self => .text self :: rest
    | ts, _ => ts
  let (types, generics) := paramTypes ts
  let args := (types.zip names).map fun (t, name) => name ++ "::" ++ t
  let (result, generics) ← if ← Tracing.isVoid n then pure ("", generics)
    else if f.returns.isSome then do pure ("::" ++ (← style.ofReturns n).shown, generics)
    else pure ("::RT", generics ++ ["RT"])
  let template := if generics.isEmpty then "" else "\x7b" ++ Text.commas generics ++ "\x7d"
  let tail := if facts.isEntry then "\nmain()" else ""
  return some ("function " ++ f.name ++ template ++ "(" ++ Text.commas args ++ ")" ++ result ++ "\n" ++ body ++
    "\nend\n" ++ tail)

def member (n value : Node) (attr : String) : Emit (Option String) := do
  let v := (← visit value).getD ""
  if v == "sys" && attr == "argv" then return some "append!([PROGRAM_FILE], ARGS)"
  else
    let scopes ← Scope.chainOf n
    if ← Scope.isEnum (some v) scopes then return some (v ++ "." ++ attr)
    else if ← Scope.isClassOrModule (some v) scopes then return some (v ++ "::" ++ attr)
    else return some (v ++ "." ++ attr)

def parametersOf (definition : Option Node) : Option (List Node) :=
  match definition.map Node.shape with
  | some (.functionDef f) | some (.asyncFunctionDef f) =>
    match f.args.shape with
    | .parameters p => some p.args
    | _ => none
  | some (.lambda args _) =>
    match args.shape with
    | .parameters p => some p.args
    | _ => none
  | _ => none

/-- An argument is converted where its type is known and not the declared one. -/
def converted (text : Option String) (param arg : Node) : Emit (Option String) := do
  let actual ← style.ofHint arg
  let declared ← style.ofHint param
  if actual != declared && actual != style.fallback then
    return some ("convert(" ++ declared.shown ++ ", " ++ shown text ++ ")")
  else return text

def call (n func : Node) (args kwds : List Node) : Emit (Option String) := do
  let name ← visit func
  let definition ← Scope.find (← Scope.chainOf n) name
  let vargs ← (args ++ keywordValues kwds).mapM visit
  match ← plugins.dispatch n name vargs with
  | some s => return some s
  | none =>
    let texts ← match parametersOf definition with
      | some ps => (vargs.zip (ps.zip args)).mapM fun (v, p, a) => converted v p a
      | none => pure vargs
    return some (shown name ++ "(" ++ (← join ", " texts) ++ ")")

def comparison (n left : Node) (op : CmpOp) (right : Node) : Emit (Option String) := do
  let d := dialect visit
  let l ← d.say left
  let r ← d.say right
  let container ← TypeFirst.containerOf d right
  let r := if container == some (.text "Dict") then "keys(" ++ r ++ ")" else r
  match op with
  | .isIn => return some (l ++ " in " ++ r)
  | .notIn => return some (l ++ " not in " ++ r)
  | _ => d.step n

def binary (n left : Node) (op : BinOp) (right : Node) : Emit (Option String) := do
  let d := dialect visit
  match left.shape, op, isWhole right with
  | .list es _, .mult, true =>
    let count ← d.say right
    match es.head? with
    | none => fail .outOfRange
    | some e => return some ("std::vector (" ++ count ++ "," ++ (← d.say e) ++ ")")
  | _, _, _ =>
    let l ← d.say left
    let r ← d.say right
    match op with
    | .matMult => return some ("(" ++ l ++ "*" ++ r ++ ")")
    | .mult => return some (l ++ "*" ++ r)
    | .pow => return some (l ++ "^" ++ r)
    | _ =>
      let text := l ++ " " ++ d.binarySymbol op ++ " " ++ r
      return some (if (← factsOf n.id).isNested then "(" ++ text ++ ")" else text)

def branch (n test : Node) (body orelse : List Node) : Emit (Option String) := do
  let d := dialect visit
  let _ ← sharedVars n
  let head := "if " ++ (← d.say test)
  let body ← d.visitAll body
  let orelse ← d.visitAll orelse
  let tail := if orelse.isEmpty then [] else some "else\n" :: orelse
  return some (← join "\n" ([some head] ++ body ++ tail ++ [some "end"]))

def enumClass (n : Node) (c : Class Node) (kind : EnumKind) : Emit (Option String) := do
  let values ← classValues visit n
  using_ "SuperEnum"
  let sep := if kind == .text then "=>" else "="
  let fields := values.zipIdx.map fun ((k, v), i) =>
    Text.times " " 16 ++ k ++ " " ++ sep ++ " " ++ enumValue kind k v i ++ "\n" ++ Text.times " " 12
  let pad := Text.times " " 12
  return some (Text.dedent (pad ++ "@se " ++ c.name ++ " begin\n" ++ String.join fields ++ "\n" ++ pad ++ "end\n" ++ pad))

def classDef (n : Node) : Emit (Option String) := do
  let d := dialect visit
  let (c, declarations) ← Members.declare d n
  match enumKind? c.bases with
  | some kind => enumClass visit n c kind
  | none =>
    let types := fieldTypes (declarations.map (·.2))
    let fields := (types.zip declarations).map fun (t, (name, _)) => name ++ "::" ++ t
    Members.ownMethods c
    return some ("struct " ++ c.name ++ "\n" ++ Text.lines fields ++ "\nend\n\n" ++ (← d.lines c.body))

def item (n value index : Node) : Emit (Option String) := do
  let d := dialect visit
  let v ← d.say value
  let i ← d.say index
  -- a type inside an annotation cannot be written
  if (← factsOf n.id).inHint then fail .missingPart
  else
    match ← TypeFirst.containerOf d value with
    | some (.text "List") => return some (v ++ "[" ++ i ++ " + 1]")
    | _ => return some (v ++ "[" ++ i ++ "]")

def attempt (t : Attempt Node) : Emit (Option String) := do
  let d := dialect visit
  let body ← d.visitAll t.body
  let handlers ← if t.handlers.isEmpty then pure [] else do
    pure (some "catch exn" :: (← d.visitAll t.handlers))
  let final ← if t.final.isEmpty then pure [] else do
    pure (some "finally" :: (← d.visitAll t.final))
  return some (← join "\n" ([some "try"] ++ body ++ handlers ++ final ++ [some "end"]))

def handler (type : Option Node) (bound : Option String) (body : List Node) : Emit (Option String) := do
  let d := dialect visit
  let bound := bound.filter (!·.isEmpty)
  let name := bound.getD "exn"
  let start := bound.toList.map fun b => some (" let " ++ b ++ " = exn")
  let test ← type.toList.mapM fun t => do pure (some ("if " ++ name ++ " isa " ++ (← d.say t)))
  let body ← d.visitAll body
  return some (← join "\n" (start ++ test ++ body ++ (test ++ start).map fun _ => some "end"))

def generators (gens : List Node) : Emit String := do
  let d := dialect visit
  let texts ← gens.zipIdx.mapM fun (g, i) => do
    match (← current g).shape with
    | .comprehension target iter ifs _ =>
      let t ← d.say target
      let it ← d.say iter
      let source := (if i == 0 then "for " else " for ") ++ t ++ " in " ++ it
      match ← ifs.mapM d.say with
      | [] => pure source
      | [c] => pure (source ++ " if " ++ c ++ " ")
      | c :: cs => pure (source ++ " if " ++ c ++ String.join (cs.map fun c => " && " ++ c ++ " "))
    | _ => fail .missingPart
  return String.join texts

def step (n : Node) : Emit (Option String) := do
  let d := dialect visit
  match n.shape with
  | .functionDef f => functionDef visit n f
  | .ret (some v) => return some ("return " ++ (← d.say v))
  | .ret none => return some "return"
  | .lambda args body =>
    let (_, names) ← d.parameters args
    return some ("(" ++ Text.commas names ++ ") -> " ++ (← d.say body))
  | .attribute value attr _ => member visit n value attr
  | .call func args kwds => call visit n func args kwds
  | .forLoop l =>
    let t ← d.say l.target
    let it ← d.say l.iter
    d.enclosed ("for " ++ t ++ " in " ++ it) l.body "end"
  | .constant (.imaginary x) _ => return some (Text.replaceAll (Literal.imaginary x).shown "j" "im")
  | .compare left (op :: _) (right :: _) => comparison visit n left op right
  | .name id _ => return if keywords.contains id then some (id ++ "_") else plainName id
  | .cond test body orelse => branch visit n test body orelse
  | .whileLoop test body _ => d.enclosed ("while " ++ (← d.say test)) body "end"
  | .binOp left op right => binary visit n left op right
  | .classDef _ => classDef visit n
  | .list es _ => return some ("[" ++ (← d.commas es) ++ "]")
  | .set es => return some ("Set([" ++ (← d.commas es) ++ "])")
  | .dict keys values =>
    return some ("Dict(" ++ Text.commas (← d.entries keys values fun k v => k ++ " => " ++ v) ++ ")")
  | .subscript value index _ => item visit n value index
  | .attempt t => attempt visit t
  | .exceptHandler type bound body => handler visit type bound body
  | .assert test _ => return some ("@assert(" ++ (← d.say test) ++ ")")
  | .annAssign target _ value _ =>
    let (t, type, v) ← d.declaration n target value
    return some (shown t ++ (if type == style.fallback then "" else "::" ++ type.shown) ++ " = " ++ shown v)
  | .augAssign target op value =>
    let t ← d.say target
    return some (t ++ " " ++ d.binarySymbol op ++ "= " ++ (← d.say value))
  | .raise (some e) _ => return some ("throw(" ++ (← d.say e) ++ ")")
  | .raise none _ => return some "error()"
  | .generatorExp elt gens | .setComp elt gens =>
    let e ← d.say elt
    return some ("(" ++ e ++ " " ++ (← generators visit gens) ++ ")")
  | .listComp elt gens =>
    let e ← d.say elt
    return some ("[" ++ e ++ " " ++ (← generators visit gens) ++ "]")
  | .dictComp key value gens =>
    let k ← d.say key
    let v ← d.say value
    return some ("Dict(" ++ k ++ " => " ++ v ++ " " ++ (← generators visit gens) ++ ")")
  | .ifExp test body orelse =>
    let b ← d.say body
    let o ← d.say orelse
    return some ((← d.say test) ++ " ? (" ++ b ++ ") : (" ++ o ++ ")")
  | _ => d.step n

def emit : Visit := Target.emitter step

def target : Target where
  language := .julia
  analyses _ := [infer]
  laterLowerings :=
    [("JuliaIndexingRewriter", inclusiveRanges), ("JuliaMethodCallRewriter", methodsToFunctions),
     ("JuliaBoolOpRewriter", truthValues)]
  start _ := {}
  install := install
  emit := emit
  usings := Target.usingLines "using "

end Polyglot.Julia
