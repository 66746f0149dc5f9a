import Polyglot.Emit.Offside
import Polyglot.Emit.Target

/-!
# SMT

Everything is an expression in brackets, operator first. A function may state what it demands of its arguments;
then it is written twice, once for what it demands and once for what it is.
-/
namespace Polyglot.Smt

open Session Emit Dialect Plugins

def types : List (String × String) :=
  [("int", "Int"), ("float", "Real"), ("bytes", "Array Int Int"), ("str", "String"), ("bool", "Bool")] ++
    fixedWidths ["Int8", "Int16", "Int32", "Int64", "UInt8", "UInt16", "UInt32", "UInt64"]

def containers : List (String × String) :=
  [("List", "Seq"), ("Tuple", "Array"), ("Dict", "Array"), ("Array", "Array"), ("Set", "set"),
   ("Optional", "Option"), ("BitVec", "BitVec")]

def ranks : List (String × Nat) :=
  ["Bool", "Int8", "UInt8", "Int16", "UInt16", "Int32", "UInt32", "Int64", "UInt64", "Real"].zipIdx

/-! ### Types -/

/-- The parts of a text between commas that stand in no brackets; `part` holds the current one backwards. -/
def unionParts (depth : Int) (part : List Char) : List Char → List String
  | [] => [String.ofList part.reverse]
  | c :: cs =>
    if c == ',' && depth == 0 then String.ofList part.reverse :: unionParts depth [] cs
    else
      let depth := if c == '[' then depth + 1 else if c == ']' then depth - 1 else depth
      unionParts depth (c :: part) cs

def union? (name : String) : Option (List String) :=
  if Text.startsWith name "Union[" && Text.endsWith name "]" then
    let body := Text.dropStart name 6
    let body := if Text.endsWith body "]" then Text.dropLast body 1 else body
    some ((unionParts 0 [] body.toList).map Text.strip)
  else none

/-- A type by name; a union of types that have one name is that one. -/
def typeName (m : TypeMaps) : Nat → String → String
  | 0, name => name
  | k + 1, name =>
    let name := Text.replaceAll name "Union [" "Union["
    match union? name with
    | none => TypeStyle.knownName m name
    | some parts =>
      match (parts.map (typeName m k)).eraseDups with
      | [one] => one
      | _ => TypeStyle.knownName m name

def applied (value index : TypeTerm) : Analysis TypeTerm := do
  if value.isText "Array" then
    match index with
    | .text s => return .text ("(Array " ++ Text.replaceAll s "," "" ++ ")")
    | .many ts =>
      let names ← ts.mapM fun t => match t with
        | .text s => pure s
        | _ => fail .wrongSort
      return .text ("(Array " ++ " ".intercalate names ++ ")")
    | _ => fail .missingPart
  else return .text ("(_ " ++ value.shown ++ " " ++ index.shown ++ ")")

def style : TypeStyle :=
  { TypeStyle.combining (.text "var") applied with
    nameType := fun m name _ => return .text (typeName m (name.length + 1) name) }

/-- Arrays are written with the type of their index. -/
def settle (t : Option String) : Analysis (Option String) :=
  match t with
  | none => fail .missingPart
  | some s =>
    if Text.startsWith s "Array" then
      match Text.words s with
      | [_, value] => return some ("(Array Int " ++ value ++ ")")
      | [_, index, value] => return some ("(Array " ++ index ++ " " ++ value ++ ")")
      | _ => return some s
    else return some s

def native : NativeTypes := { NativeTypes.plain types ranks with settle := settle }

def install : Analysis Unit := Target.installMaps types containers

/-! ### Lowering -/

def isDemand (test : Node) : Bool := test.ident? == some "smt_pre"

def markDemands : Lowering := fun self n => do
  match n.shape with
  | .cond test _ _ =>
    if isDemand test then
      match ← Scope.functionOf (← Scope.chainOf n) with
      | some f => note f.id ({ · with isPrecondition := true })
      | none => pure ()
    return [n]
  | _ => Lowering.through self n

/-- What differs is not equal. -/
def notEqual : Lowering := fun self n => do
  match n.shape with
  | .compare left (.notEq :: ops) cs =>
    let n ← edit n (.compare left (.eq :: ops) cs)
    return [← fresh (.unaryOp .not n)]
  | .compare .. => return [n]
  | _ => Lowering.through self n

/-! ### Rules -/

def symbols : Symbols where
  binary
    | .bitXor => some "xor"
    | .bitOr => some "or"
    | .bitAnd => some "and"
    | op => Symbols.common.binary op
  unary
    | .not => some "not"
    | op => Symbols.common.unary op
  comparison
    | .eq => some "="
    | op => Symbols.common.comparison op
  logic op := some (if op == .and then "and" else "or")

def param (n : Node) : Emit (TypeTerm × String) := do
  match n.shape with
  | .arg id none => return (.text "T", id)
  | .arg id (some _) => return (← style.ofHint n, id)
  | _ => fail .missingPart

def dialect (visit : Visit) : Dialect where
  visit := visit
  style := style
  symbols := symbols
  separator := ""
  comment text := ";; " ++ text ++ "\n"
  ellipsis := return some ""
  isIn := contained visit
  importOne name := return some ("import " ++ name)
  importFrom source names _ := return some ("from " ++ source ++ " import " ++ Text.commas names)
  param := param
  ignoredModules := Calls.ignoredModules.filter (· != "math")
  start := { indentUnit := 2 }
  install := install

variable (visit : Visit)

def spaced (ns : List Node) : Emit String := (dialect visit).joined " " ns

def isOmitted (body : List Node) : Bool :=
  match body with
  | [⟨_, _, _, .exprStmt v⟩] => isEllipsis v
  | _ => false

def resultSort (n : Node) (f : Function Node) : Emit String := do
  if ← Tracing.isVoid n then return ""
  else if f.returns.isSome then return " " ++ (← style.ofReturns n).shown
  else return ""

def indented (ns : List Node) : Emit String := do
  return Text.lines (← ns.mapM fun b => do Offside.indent 1 (← require (← visit b)))

/-- A function with its parameters and the type of its result, and before it what it demands. -/
def definition (n : Node) (f : Function Node) (args result : String) : Emit (Option String) := do
  let name := Text.replaceAll f.name "_" "-"
  let body ← indented visit f.body
  let text := "(define-fun " ++ name ++ "(" ++ args ++ ") " ++ result ++ "\n" ++ body ++ ")\n"
  if (← factsOf n.id).isPrecondition then
    modify fun p => { p with onlyDemands := true }
    let demands ← indented visit (f.body.take 1)
    modify fun p => { p with onlyDemands := false }
    return some ("(define-fun " ++ name ++ "-pre(" ++ args ++ ") Bool\n" ++ demands ++ ")\n\n" ++ text)
  else return some text

def functionDef (n : Node) (f : Function Node) : Emit (Option String) := do
  let (ts, names) ← (dialect visit).parameters f.args
  let args := " ".intercalate ((names.zip ts).map fun (name, t) => "(" ++ name ++ " " ++ t.shown ++ ")")
  let result ← resultSort n f
  if isOmitted f.body then return some ("(declare-fun " ++ f.name ++ "() " ++ result ++ ")")
  else definition visit n f args result

def decoratorsOf (n : Node) : Option (List Node) :=
  match n.shape with
  | .classDef c => some c.decorators
  | .functionDef f | .asyncFunctionDef f => some f.decorators
  | _ => none

def isSealed (decorators : List Node) : Bool := decorators.any fun x => x.ident? == some "sealed"

/-- A member of a value; the variants of a sealed class go by their own names. -/
def member (n value : Node) (attr : String) : Emit (Option String) := do
  let v := (← visit value).getD ""
  match ← Scope.find (← Scope.chainOf n) (some v) with
  | none => return some (v ++ "." ++ attr)
  | some d =>
    match decoratorsOf d with
    | none => fail .missingPart
    | some decorators => return some (if isSealed decorators then attr else v ++ "." ++ attr)

def isDemanding (n : Node) (name : Option String) : Emit Bool := do
  match ← Scope.find (← Scope.chainOf n) name with
  | some f => return (← factsOf f.id).isPrecondition
  | none => return false

def invocation (n func : Node) (name : Option String) (vargs : List (Option String)) : Emit (Option String) := do
  match ← ({} : Plugins).dispatch n name vargs with
  | some s => return some s
  | none =>
    let args ← if vargs.isEmpty then pure "" else do pure (" " ++ (← join " " vargs))
    let text := shown name ++ args
    if !(func.isName || func.isAttribute) then return some ("(apply " ++ text ++ ")")
    else
      return some (if ← isDemanding n name then
          Text.lines ["(and", "(" ++ shown name ++ "-pre " ++ args ++ ")", "(" ++ text ++ ")", ")"]
        else "(" ++ text ++ ")")

def call (n func : Node) (args kwds : List Node) : Emit (Option String) := do
  let name ← visit func
  let vargs ← (args ++ keywordValues kwds).mapM visit
  invocation n func name vargs

def memberName : Member → Emit (Option String)
  | .named _ => return none
  | .target id => do return (← nodeOf id).ident?

/-- One variant of a sealed class; variants that hold a class say what it is made of. -/
def variant (n : Node) (type : TypeTerm) (name : String) : Emit (String × Bool) := do
  if type == style.fallback then return ("(None)", false)
  else if type matches .many _ then fail .wrongSort
  else if ["Callable", "Int", "Float", "Bool", "String"].any type.isText then return (name, false)
  else
    match ← Scope.find (← Scope.outer (← Scope.chainOf n)) type.text? with
    | none => throwAt .typeless (some type.shown) n
    | some d =>
      let facts ← factsOf d.id
      match facts.classAssignments with
      | none => fail .missingPart
      | some members =>
        let parts ← members.mapM fun (m, _) => do
          let id ← memberName m
          let type := (id.bind fun i => (facts.declarations.getD []).lookup i).getD .absent
          pure ("(" ++ shown id ++ " " ++ type.shown ++ ")")
        match type with
        | .text s => return ("(" ++ Text.lower s ++ " " ++ String.join parts ++ ")", true)
        | _ => fail .missingPart

def sealedClass (n : Node) (c : Class Node) : Emit (Option String) := do
  let facts ← factsOf n.id
  let defaults := facts.declaredDefaults.getD []
  let variants ← (facts.classAssignments.getD []).mapM fun (m, _) => do
    match ← memberName m with
    | none => fail .wrongSort
    | some id =>
      match defaults.lookup id with
      | none => fail .wrongSort
      | some (type, _) => variant n type id
  let texts := variants.map (·.1)
  if variants.any (·.2) then
    return some ("(declare-datatypes ((" ++ c.name ++ " 0)) ((" ++ String.join texts ++ ")))")
  else return some ("(declare-datatypes () ((" ++ c.name ++ " " ++ " ".intercalate texts ++ ")))")

/-- Only sealed classes are written. -/
def classDef (n : Node) : Emit (Option String) := do
  let (c, _) ← Members.declare (dialect visit) n [] true
  if isSealed c.decorators then sealedClass n c else return some ""

def cast (text : String) (type : TypeTerm) : String := "(to_" ++ Text.lower type.shown ++ " " ++ text ++ ")"

def binary (left : Node) (op : BinOp) (right : Node) : Emit (Option String) := do
  let d := dialect visit
  let l ← d.say left
  let r ← d.say right
  if op == .pow then return some (l ++ "^" ++ r)
  else
    let lt ← style.ofHint left
    let rt ← style.ofHint right
    let lr ← native.termRank lt
    let rr ← native.termRank rt
    let r' := if lr > rr then cast r lt else r
    let l' := if rr > lr then cast l rt else l
    return some ("(" ++ d.binarySymbol op ++ " " ++ l' ++ " " ++ r' ++ ")")

def assignOne (n target value : Node) : Emit String := do
  let d := dialect visit
  let kw := if ← Scope.isMutable target.ident? (← Scope.chainOf n) then "assert" else "let"
  let t ← d.say target
  let v ← d.say value
  if target.isSubscript || target.isAttribute then return "(assert (= " ++ t ++ " " ++ v ++ "))"
  else if value.shape matches .list .. then
    let words := Text.words (Text.dropLast (Text.dropStart v 1) 1)
    return Text.lines (words.zipIdx.map fun (w, i) => "(assert (= (select " ++ t ++ " " ++ toString i ++ ") " ++ w ++ "))")
  else return "(" ++ kw ++ " (" ++ t ++ " " ++ v ++ "))"

/-- What a branch gives; without another way it gives zero. -/
def branch (test : Node) (body orelse : List Node) : Emit (Option String) := do
  let d := dialect visit
  if isDemand test then
    if (← get).onlyDemands then
      let body ← d.visitAll body
      return some (← join "\n" ([some "(and"] ++ body.filter Option.isSome ++ [some ")"]))
    else return some ""
  else
    let head := "(ite " ++ (← d.say test) ++ " "
    let body ← d.visitAll body
    let orelse ← d.visitAll orelse
    let tail := if orelse.isEmpty then [some "0)"] else orelse ++ [some ")"]
    return some (← join "\n" ([some head] ++ body.filter Option.isSome ++ tail))

def step (n : Node) : Emit (Option String) := do
  let d := dialect visit
  match n.shape with
  | .pass => return some ""
  | .attribute value attr _ => member visit n value attr
  | .functionDef f => functionDef visit n f
  | .ret none => return some ""
  | .ret (some v) => return some (← d.say v)
  | .call func args kwds => call visit n func args kwds
  | .classDef _ => classDef visit n
  | .subscript value index _ =>
    let v ← d.say value
    return some ("(select " ++ v ++ " " ++ (← d.say index) ++ ")")
  | .tuple es _ =>
    let texts ← spaced visit es
    return some (if (← factsOf n.id).inHint then texts else "(" ++ texts ++ ")")
  | .slice .. => d.children n
  | .assert test _ =>
    let t ← d.say test
    return some (if (← get).onlyDemands then t else "(assert " ++ t ++ ")")
  | .annAssign target _ value _ =>
    let (t, type, v) ← d.declaration n target value
    if v.all (Text.occursIn "default-value") then
      return some ("(declare-const " ++ shown t ++ " " ++ type.shown ++ ")")
    else refuse (shown v ++ " can't be assigned") n
  | .assign targets value => Offside.assignments n targets fun t => assignOne visit n t value
  | .list [] _ => return some "((as const (Array Int Int)) 0)"
  | .list es _ =>
    let texts ← spaced visit es
    let places := " ".intercalate ((List.range es.length).map toString)
    return some ("((lambda ((i Int)) (ite (= i " ++ places ++ ") " ++ texts ++ " 0)) :init)")
  | .cond test body orelse => branch visit test body orelse
  | .unaryOp op operand =>
    return some ("(" ++ shown (d.symbols.unary op) ++ " " ++ (← d.say operand) ++ ")")
  | .boolOp op values =>
    return some ("(" ++ shown (d.symbols.logic op) ++ " " ++ (← spaced visit values) ++ ")")
  | .compare _ (.isIn :: _) _ => d.isIn n
  | .compare left (op :: _) (right :: _) =>
    let l ← d.say left
    return some ("(" ++ d.comparisonSymbol op ++ " " ++ l ++ " " ++ (← d.say right) ++ ")")
  | .binOp left op right => binary visit left op right
  | .name id _ => return some (Text.replaceAll id "_" "-")
  | .exprStmt value =>
    let text ← d.expression value
    if (← Scope.isGlobal n) && (value.shape matches .compare ..) then
      return some ("(assert " ++ shown text ++ ")")
    else return text
  | _ => d.step n

def emit : Visit := Target.emitter step

def target : Target where
  language := .smt
  lowerings := [("AnnotatePreConditions", markDemands), ("RewriteNotEq", notEqual)]
  analyses _ := [native.infer]
  start _ := { indentUnit := 2 }
  install := install
  emit := emit

end Polyglot.Smt
