import Polyglot.Emit.Target
import Polyglot.Emit.TypeFirst
import Polyglot.Lowering.Hoisting
import Polyglot.Lowering.Numbers
import Polyglot.Target.Go.Library

/-!
# Go

Names that other packages can see start with a capital letter. A statement that the language lacks, such as a
conditional value or an assignment inside an expression, is taken apart beforehand.
-/
namespace Polyglot.Go

open Session Emit Dialect Plugins

def types : List (String × String) :=
  [("bool", "bool"), ("int", "int"), ("float", "float64"), ("complex", "complex128"), ("bytes", "[]uint8"),
   ("str", "string")] ++ fixedWidths ["int8", "int16", "int32", "int64", "uint8", "uint16", "uint32", "uint64"]

def containers : List (String × String) := [("List", "[]"), ("list", "[]"), ("Optional", "nil")]

def ranks : List (String × Nat) :=
  ["bool", "int8", "uint8", "int16", "uint16", "int32", "uint32", "int64", "uint64", "float32", "float64"].zipIdx

def keywords : List String :=
  ["break", "default", "func", "interface", "select", "case", "defer", "go", "map", "struct", "chan", "else",
   "goto", "package", "switch", "const", "fallthrough", "if", "range", "type", "continue", "for", "import",
   "return", "var"]

def symbols : Symbols :=
  { Symbols.common with
    binary := fun op => match op with
      | .bitAnd => some "&&"
      | .bitOr => some "||"
      | .bitXor => some "!="
      | op => Symbols.common.binary op }

def joinNames (value index : TypeTerm) : Analysis TypeTerm := return .text (value.shown ++ index.shown)

def style : TypeStyle :=
  { TypeStyle.combining .absent joinNames with
    containers := some containers
    functionType := some fun args result => "func(" ++ args ++ ") " ++ result }

def native : NativeTypes := .plain types ranks

/-- A type, where one that cannot be told is none. -/
def typeIfTold (act : Emit TypeTerm) : Emit (Option TypeTerm) := do
  try return some (← act)
  catch f => if f.cause == .uninferred then return none else throw f

/-! ### Lowering -/

/-- Names at the top of a program become visible outside. -/
def publish : Lowering := fun self n => do
  match n.shape with
  | .name id _ =>
    match ← Scope.chain? n with
    | none => pure ()
    | some _ =>
      if ← Scope.isGlobal n then
        let new := Names.camelCase id
        if new != id then Names.rename id new (← Scope.innermost (← Scope.chainOf n))
    return [← current n]
  | .functionDef f =>
    match ← Scope.chain? n with
    | none => pure ()
    | some scopes =>
      match scopes.reverse[1]? with
      | none => fail .outOfRange
      | some outer =>
        let outer ← nodeOf outer
        if outer.shape matches .module _ then
          let new := if Text.occursIn "_" f.name then Names.camelCase f.name
            else (Names.capitalFirst f.name).getD f.name
          if new != f.name then Names.rename f.name new outer
    return [← current n]
  | _ => Lowering.through self n

/-- An assignment of a conditional value becomes a branch with an assignment on each side. -/
def branchValues : Lowering := fun self n => do
  match n.shape with
  | .assign targets value =>
    match (← current value).shape with
    | .ifExp test body orelse =>
      let b ← Lowering.statementAt "if True:\n    a = 1\nelse:\n    a = 2" n
      match b.shape with
      | .cond _ [first] [second] =>
        let first ← edit first (.assign targets body)
        let second ← edit second (.assign targets orelse)
        return [← place (← edit b (.cond test [first] [second]))]
      | _ => fail .brokenPromise
    | _ => return [n]
  | _ => Lowering.through self n

/-! ### Lowering with types -/

def assignAppends : Lowering := fun self n => do
  let n ← Lowering.descend self n
  match n.shape with
  | .call func args kwds =>
    match func.shape with
    | .attribute list "append" usage =>
      if ← Tracing.isList list then
        match list.ident? with
        | none | some "" => return [n]
        | some id =>
          let line := some (← lineOf n)
          let arg ← Lowering.nameOn line id
          let f ← freshAt line none (.name "append" usage)
          let n ← edit n (.call f (arg :: args) kwds)
          let target ← Lowering.nameOn line id
          let a ← Lowering.assignOn line target n
          note a.id ({ · with scopes := some (← Scope.chainOf n) })
          return [a]
      else return [n]
    | _ => return [n]
  | _ => return [n]

/-- A declared container has the declared type. -/
def typeContainers : Lowering := fun self n => do
  let hand (value : Option Node) : Analysis (List Node) := do
    match value, ← hint? n with
    | some v, some t =>
      if v.isList || v.isSet || v.isDict then note v.id ({ · with hint := some (t.map (·.id)) })
    | _, _ => pure ()
    return [n]
  match n.shape with
  | .assign _ value => hand (some value)
  | .annAssign _ _ value _ => hand value
  | _ => Lowering.through self n

/-! ### Known functions -/

def range : Plugin := fun n vargs => do
  using_ "iter \"github.com/hgfischer/go-iter\""
  let (start, stop, step) ← rangeOf n vargs
  return some ("iter.NewIntSeq(iter.Start(" ++ start ++ "), iter.Stop(" ++ stop ++ ")" ++
    step.elim "" (fun s => ", iter.Step(" ++ s ++ ")") ++ ").All()")

def elementType (e : Option Node) : Emit String := do
  match e with
  | some e => return "[]" ++ shown (← native.typeOf e)
  | none => fail .outOfRange

def printedType (n : Node) : Emit (Option TypeTerm) := do
  let plain : Emit (Option TypeTerm) := do
    match ← native.typeOf n with
    | some t => if t.isEmpty then declared else return some (.text t)
    | none => declared
  match n.shape with
  | .binOp left .mult right =>
    match left.shape, right.shape with
    | .list es _, _ | _, .list es _ => return some (.text (← elementType es.head?))
    | _, _ => plain
  | _ => plain
where
  declared : Emit (Option TypeTerm) := do
    match n.shape, ← Scope.chain? n with
    | .name id _, some scopes =>
      match ← Scope.find scopes (some id) with
      | some d => if ← hasHint d then typeIfTold (style.ofHint d) else return none
      | none => return none
    | _, _ => return none

def printedValue (visit : Visit) (n : Node) : Emit (Option String) := do
  let value ← visit n
  let type ← printedType n
  let isList ← match type with
    | some (.text t) => pure (Text.startsWith t "[]")
    | some t => if t.given then fail .missingPart else pure false
    | none => pure false
  if isList then
    using_ "\"strings\""
    return some ("func() string \x7b items := " ++ shown value ++ "; parts := make([]string, len(items)); " ++
      "for i, item := range items \x7b switch v := any(item).(type) \x7b case string: parts[i] = " ++
      "fmt.Sprintf(\"'%s'\", strings.ReplaceAll(v, \"'\", \"\\\\'\")); " ++
      "default: parts[i] = fmt.Sprintf(\"%v\", item) \x7d \x7d; " ++
      "return \"[\" + strings.Join(parts, \", \") + \"]\" \x7d()")
  else return value

def printLine (visit : Visit) : Plugin := fun n _ => do
  let texts ← (callArgs n).mapM (printedValue visit)
  using_ "\"fmt\""
  let places := " ".intercalate (texts.map fun _ => "%v")
  return some ("fmt.Printf(\"" ++ places ++ "\\n\"," ++ (← join ", " texts) ++ ")")

def minMax (name : String) : Plugin := fun _ vargs => do
  using_ "\"math\""
  return some (name ++ "(" ++ (← join ", " vargs) ++ ")")

def plugins (visit : Visit) : Plugins where
  byName :=
    [("max", minMax "math.Max"), ("min", minMax "math.Min"), ("range", range), ("range_", range),
     ("xrange", range), ("print", printLine visit),
     ("floor", fun _ vargs => do
        using_ "\"math\""
        return some ("math.Floor(" ++ (← argAt vargs 0) ++ ")"))]
  small :=
    [("str", optionalCall "fmt.Sprintf(\"%v\", " ")" "\"\""), ("int", optionalCall "int(" ")" "0"),
     ("bool", optionalCall "(" " != 0)" "false"), ("float", optionalCall "float64(" ")" "0.0"),
     ("complex", unaryCall "complex128(" ")")]
  smallUsings := [("str", "\"fmt\"")]
  byFunction :=
    [("sys.exit", fun _ vargs => do
        using_ "\"os\""
        return some ("os.Exit(" ++ (← argAt vargs 0) ++ ")"), true)]

/-! ### Rules -/

def moreParams (p : Parameters Node) : Emit (List (TypeTerm × String)) := do
  match p.vararg with
  | none => return []
  | some v =>
    let (t, id) ← guarded v (TypeFirst.param style v)
    let t := if t.isText "T" then "interface\x7b\x7d" else t.shown
    return [(.text ("..." ++ t), id)]

def quote (s : String) : String :=
  let s := Text.replaceAll s "\\" "\\\\"
  quotedText s

def isIn (visit : Visit) (n : Node) : Emit (Option String) := do
  using_ "\"github.com/electrious/refutil\""
  match n.shape with
  | .compare left _ (container :: _) =>
    let e := shown (← visit left)
    let _ ← TypeStyle.genericHint style.fallback container
    let c := shown (← visit container)
    match (← factsOf container.id).genericContainer with
    | some (.text "Set", _) => return some ("refutil.ContainsKey(" ++ c ++ ", " ++ e ++ ")")
    | _ => return some ("refutil.Contains(" ++ c ++ ", " ++ e ++ ")")
  | _ => fail .outOfRange

/-- Whether a value is a list of texts because of how it is made. -/
def makesTexts (n : Node) : Bool :=
  match n.shape with
  | .call func _ _ =>
    match func.shape with
    | .name id _ => id == "list" || id == "list_"
    | .attribute _ attr _ => attr == "split" || attr == "findall"
    | _ => false
  | _ => false

def isPattern (n : Node) : Bool :=
  match n.shape with
  | .call func _ _ =>
    match func.shape with
    | .attribute v "compile" _ => v.isName && v.ident? == some "re"
    | _ => false
  | _ => false

def needsCast (left right : Node) : Emit Bool := do
  if ← hasHint left then
    let l ← style.ofHint left
    let r ← native.typeOf right
    match r with
    | none => return false
    | some r => return !(l.isText r) && l != .absent
  else return false

def isSet (scopes : List NodeId) (target n : Node) : Emit Bool := do
  match ← Scope.findOutward scopes target.ident? with
  | none => return false
  | some d => Scope.isSetBefore target (some d) n

/-- An assignment whose starred target takes what the others leave. -/
def starredAssign (visit : Visit) (n : Node) (elts : List Node) (value : Node) : Emit (Option String) := do
  let v ← visit value
  let tmp := "__tmp" ++ toString (← lineOf n) ++ "_" ++ toString (n.col.getD 0)
  let scopes ← Scope.chainOf n
  let count := elts.length
  let star := (elts.findIdx? Node.isStarred).getD 0
  let parts ← elts.zipIdx.mapM fun (e, i) => do
    let target := match e.shape with
      | .starred v _ => v
      | _ => e
    let t ← visit target
    let text := shown t
    let val :=
      if i < star then tmp ++ "[" ++ toString i ++ "]"
      else if i == star then
        let tail := count - i - 1
        let upper := if tail == 0 then "len(" ++ tmp ++ ")" else "len(" ++ tmp ++ ") - " ++ toString tail
        tmp ++ "[" ++ toString i ++ ":" ++ upper ++ "]"
      else tmp ++ "[len(" ++ tmp ++ ")-" ++ toString (count - i) ++ "]"
    if ← isSet scopes target n then return [text ++ " = " ++ val]
    else
      let type ← style.ofHint target
      let set := if type == .absent then text ++ " := " ++ val else "var " ++ text ++ " " ++ type.shown ++ " = " ++ val
      return if text == "_" then [set] else [set, "_ = " ++ text]
  return some (Text.lines ((tmp ++ " := " ++ shown v) :: parts.flatten))

def assignPlain (visit : Visit) (n target value : Node) : Emit (Option String) := do
  let scopes ← Scope.chainOf n
  let type ← style.ofHint target
  let type ← if type == .absent && makesTexts value then do
      let list ← typeName "List"
      let str ← typeName "str"
      annotate target (← fresh (.subscript list str .unset))
      pure (.text "[]string")
    else pure type
  let cast ← needsCast target value
  let t ← visit target
  let v := shown (← visit value)
  let v := if cast then type.shown ++ "(" ++ v ++ ")" else v
  let definition ← Scope.findOutward scopes target.ident?
  if ← Scope.isSetBefore target definition n then return some (shown t ++ " = " ++ v)
  else if type != .absent then
    let text ← present t
    if text == "_" then return some ("_ = " ++ v)
    else
      let tail := if Text.startsWith text "_" || isPattern value then "\n_ = " ++ text else ""
      return some ("var " ++ text ++ " " ++ type.shown ++ " = " ++ v ++ tail)
  else
    let text := shown t
    if ← Scope.isGlobal n then return some ("var " ++ text ++ " = " ++ v)
    else if isPattern value && text != "_" then return some (text ++ " := " ++ v ++ "\n_ = " ++ text)
    else return some (text ++ " := " ++ v)

def assignOne (visit : Visit) (n target : Node) : Emit (Option String) := do
  match n.shape with
  | .assign _ value =>
    let starred := match target.shape with
      | .tuple es _ | .list es _ => es.any Node.isStarred
      | _ => false
    match target.shape, starred with
    | .tuple es _, true | .list es _, true => starredAssign visit n es value
    | .tuple es _, false =>
      let texts ← es.mapM visit
      let v ← visit value
      return some ("var " ++ (← join ", " texts) ++ " = " ++ shown v)
    | _, _ =>
      let scopes ← Scope.chainOf n
      if let some id ← sharedTarget? visit scopes target then return some (shown id ++ " = " ++ shown (← visit value))
      else if target.isSubscript || target.isAttribute then
        let t ← visit target
        return some (shown t ++ " = " ++ shown (← visit value))
      else assignPlain visit n target value
  | _ => fail .missingPart

def importOne (name : String) : Emit (Option String) :=
  return some (if LibraryCall.isLibrary name then "" else "import (\"" ++ name ++ "\")")

def importFrom (source : String) (names : List String) : Emit (Option String) :=
  if LibraryCall.isLibrary source then return some ""
  else
    let path := Text.replaceAll source "." "/"
    return some (Text.lines (names.map fun name => "import (\"" ++ path ++ "/" ++ name ++ "\")"))

def install : Analysis Unit := Target.installTypes types

def dialect (visit : Visit) : Dialect where
  visit := visit
  style := style
  symbols := symbols
  nothing := "nil"
  comment text := "// " ++ text ++ "\n"
  quote _ s := return some (quote s)
  bytes _ bs := return some ("[]byte" ++ byteList bs)
  isIn := isIn visit
  assignOne := assignOne visit
  importOne := importOne
  importFrom name names _ := importFrom name names
  param := TypeFirst.param style
  moreParams := moreParams
  makeBlock _ body := do
    return some (← join "\n" ([some "\x7b"] ++ (← body.mapM visit) ++ [some "\x7d"]))
  start := {}
  install := install

variable (visit : Visit)

def functionDef (n : Node) (f : Function Node) : Emit (Option String) := do
  let d := dialect visit
  let body ← d.lines f.body
  let (ts, names) ← d.parameters f.args
  let own := (← factsOf n.id).selfType
  if own.isNone && ts.head? == some .absent then fail .missingPart
  let ps := ts.zip names
  let ps := match own, ps with
    | some cls, (.absent, name) :: rest => (.text cls, name) :: rest
    | _, ps => ps
  let ps := if own.isSome then ps.filter fun (_, name) => name != "self" else ps
  let rec go : Nat → List (TypeTerm × String) → List String × List String
    | _, [] => ([], [])
    | i, (t, name) :: rest =>
      if t.isText "T" then
        if own.isSome then
          let (args, generics) := go (i + 1) rest
          ((name ++ " interface\x7b\x7d") :: args, generics)
        else
          let t := "T" ++ toString i
          let (args, generics) := go (i + 1) rest
          ((name ++ " " ++ t) :: args, (t ++ " any") :: generics)
      else
        let (args, generics) := go i rest
        ((name ++ " " ++ t.shown) :: args, generics)
  let (args, generics) := go 0 ps
  let result ← if ← Tracing.isVoid n then pure ""
    else if f.returns.isSome then
      match ← typeIfTold (style.ofReturns n) with
      | some t => pure (" " ++ t.shown)
      | none => pure ""
    else pure " interface\x7b\x7d"
  let template := if generics.isEmpty then "" else "[" ++ Text.commas generics ++ "]"
  let receiver := match own with
    | some cls => "(self " ++ cls ++ ") "
    | none => ""
  return some ("func " ++ receiver ++ f.name ++ template ++ "(" ++ Text.commas args ++ ")" ++ result ++ " \x7b\n" ++
    body ++ "\x7d\n\n")

def member (n value : Node) (attr : String) : Emit (Option String) := do
  let v ← visit value
  match byPath Library.values value attr with
  | some (package, text) =>
    using_ package
    return some text
  | none =>
    let v := v.getD ""
    let scopes ← Scope.chainOf n
    if ← Scope.isEnum (some v) scopes then return some attr
    else
      let _ ← Scope.isClassOrModule (some v) scopes
      return some (v ++ "." ++ attr)

/-- A call of a function of the library, by the path or else as a method of a text. -/
def libraryCall (func : Node) (args : List Node) : Emit (Option String) := do
  match func.shape with
  | .attribute value attr _ =>
    let vargs ← args.mapM visit
    let receiver : Emit String := return shown (← visit value)
    match byPath Library.calls value attr <|> Library.calls.lookup ("str." ++ attr) with
    | some f => f receiver vargs
    | none => return none
  | _ => return none

def call (n func : Node) (args kwds : List Node) : Emit (Option String) := do
  match ← libraryCall visit func args with
  | some s => return some s
  | none =>
    let name ← visit func
    let d ← Scope.find (← Scope.chainOf n) name
    match d.filter Node.isClass with
    | some cls => recordOf visit n name cls args kwds
    | none =>
      let vargs ← (args ++ keywordValues kwds).mapM visit
      match ← (plugins visit).dispatch n name vargs with
      | some s => return some s
      | none => return some (shown name ++ "(" ++ (← join ", " vargs) ++ ")")

def comparison (n left : Node) (op : CmpOp) (right : Node) : Emit (Option String) := do
  let d := dialect visit
  let lt ← native.typeOf left
  let rt ← native.typeOf right
  let symbol := symbols.comparison op
  let plain : Emit (Option String) := do
    let typed ← if ← hasHint left then pure true else hasHint right
    let contained ← if typed then do
        let _ ← style.ofHint left
        let _ ← style.ofHint right
        let l := (← factsOf left.id).container.isSome
        let r := (← factsOf right.id).container.isSome
        pure (l || (r && symbol != some "in"))
      else pure false
    let l ← d.say left
    let r ← d.say right
    if contained then
      using_ "\"github.com/google/go-cmp/cmp\""
      if symbol == some "==" then return some ("cmp.Equal(" ++ l ++ ", " ++ r ++ ")") else d.step n
    else d.step n
  if lt == some "[]uint8" || rt == some "[]uint8" then
    using_ "\"bytes\""
    let l ← d.say left
    let r ← d.say right
    let equal := "bytes.Equal(" ++ l ++ ", " ++ r ++ ")"
    if symbol == some "!=" then return some ("!" ++ equal)
    else if symbol == some "==" then return some equal
    else plain
  else plain

def branch (n test : Node) (body orelse : List Node) : Emit (Option String) := do
  let vars := (← factsOf (← Scope.innermost (← Scope.chainOf n)).id).bodyVars.getD []
  let common ← sharedVars n
  let lines ← common.mapM fun name => do
    let named ← vars.filterMapM fun v => do
      match v with
      | some id =>
        let v ← nodeOf id
        return if v.ident? == name then some v else none
      | none => return none
    let type ← (dialect visit).typeOf? named.getLast?
    return "var " ++ shown name ++ " " ++ type.shown
  let text ← (dialect visit).branch n test body orelse true
  if lines.isEmpty then return text else return some (Text.lines lines ++ "\n" ++ (← require text))

def repeated (list : Node) (elts : List Node) (count : Node) : Emit (Option String) := do
  let element ← match (← factsOf list.id).container, elts with
    | some (_, .absent), e :: _ | none, e :: _ => pure (shown (← native.typeOf e))
    | some (_, t), _ => pure t.shown
    | none, [] => pure "None"
  let texts ← (dialect visit).commas elts
  let slice := "[]" ++ element
  let count := shown (← visit count)
  return some ("func() " ++ slice ++ " \x7b var out " ++ slice ++ "; for i := 0; i < " ++ count ++
    "; i++ \x7b out = append(out, " ++ slice ++ "\x7b" ++ texts ++ "\x7d...) \x7d; return out \x7d()")

def isText (n : Node) : Bool := n.shape matches .constant (.str _) _

def binary (left : Node) (op : BinOp) (right : Node) : Emit (Option String) := do
  let d := dialect visit
  match op with
  | .pow =>
    using_ "\"math\""
    let l ← d.say left
    let r ← d.say right
    let power := "math.Pow(float64(" ++ l ++ "), float64(" ++ r ++ "))"
    return some (if isWhole left && isWhole right then "int(" ++ power ++ ")" else power)
  | .mult =>
    if isText left then
      using_ "\"strings\""
      let l ← d.say left
      return some ("strings.Repeat(" ++ l ++ ", " ++ (← d.say right) ++ ")")
    else if isText right then
      using_ "\"strings\""
      let r ← d.say right
      return some ("strings.Repeat(" ++ r ++ ", " ++ (← d.say left) ++ ")")
    else
      match left.shape, right.shape with
      | .list es _, _ => repeated visit left es right
      | _, .list es _ => repeated visit right es left
      | _, _ => plain
  | _ => plain
where
  plain : Emit (Option String) := do
    let l := shown (← visit left)
    let r := shown (← visit right)
    let lt ← style.ofHint left
    let rt ← style.ofHint right
    let lr ← native.termRank lt
    let rr ← native.termRank rt
    let r' := if lr > rr then lt.shown ++ "(" ++ r ++ ")" else r
    let l' := if rr > lr then rt.shown ++ "(" ++ l ++ ")" else l
    let symbol := (dialect visit).binarySymbol op
    if op == .mult || op == .div then return some ("(" ++ l' ++ symbol ++ r' ++ ")")
    else return some ("(" ++ l' ++ " " ++ symbol ++ " " ++ r' ++ ")")

def enumClass (n : Node) (c : Class Node) (kind : EnumKind) : Emit (Option String) := do
  let fields := (← classValues visit n).zipIdx.map fun ((k, v), i) =>
    let value := if v == "auto()" then (if kind == .flag then "1 << iota" else "iota") else v
    k ++ (if i == 0 then " " ++ c.name else "") ++ " = " ++ value
  let type := if kind == .text then "string" else "int"
  return some ("type " ++ c.name ++ " " ++ type ++ "\n\n const (\n" ++ Text.lines fields ++ "\n)\n\n")

def classDef (n : Node) : Emit (Option String) := do
  let d := dialect visit
  let (c, declarations) ← Members.declare d n
  match enumKind? c.bases with
  | some kind => enumClass visit n c kind
  | none =>
    let fields := declarations.map fun (name, t) =>
      name ++ " " ++ (if t == .absent then "interface\x7b\x7d" else t.shown)
    Members.ownMethods c
    let body ← d.lines c.body
    return some ("type " ++ c.name ++ " struct \x7b\n" ++ Text.lines fields ++ "\n\x7d\n" ++ body ++ "\n")

def list (n : Node) (elts : List Node) : Emit (Option String) := do
  let d := dialect visit
  let _ ← style.ofHint n
  let probe (e : Node) : Node := match e.shape with
    | .starred v _ => v
    | _ => e
  let element ← match (← factsOf n.id).container, elts with
    | some (_, .absent), e :: _ | none, e :: _ => pure (shown (← native.typeOf (probe e)))
    | some (_, t), _ => pure t.shown
    | none, [] => pure "None"
  let slice := "[]" ++ element
  if elts.any Node.isStarred then
    let rec go : List (Option String) → List Node → Emit (List String)
      | [], [] => return []
      | run, [] => return [slice ++ "\x7b" ++ (← join ", " run) ++ "\x7d"]
      | run, e :: rest => do
        match e.shape with
        | .starred v _ =>
          let before ← if run.isEmpty then pure [] else pure [slice ++ "\x7b" ++ (← join ", " run) ++ "\x7d"]
          let v ← d.say v
          return before ++ [v] ++ (← go [] rest)
        | _ => go (run ++ [← d.visit e]) rest
    match ← go [] elts with
    | [] => return some (slice ++ "\x7b\x7d")
    | p :: ps => return some (ps.foldl (fun acc p => "append(" ++ acc ++ ", " ++ p ++ "...)") p)
  else return some (slice ++ "\x7b" ++ (← d.commas elts) ++ "\x7d")

def dict (n : Node) (keys : List (Option Node)) (values : List Node) : Emit (Option String) := do
  let d := dialect visit
  let pairs := Text.commas (← d.entries keys values fun k v => k ++ ": " ++ v)
  let _ ← style.ofHint n
  let (key, value) ← match (← factsOf n.id).container with
    | none => pure (.absent, .absent)
    | some (_, .many [k, v]) => pure (if k == .absent then .text "int" else k, v)
    | some (_, .text s) =>
      match s.toList with
      | [a, b] => pure (.text a.toString, .text b.toString)
      | _ => fail .badValue
    | some (_, .many _) => fail .badValue
    | some _ => fail .wrongSort
  return some ("map[" ++ key.shown ++ "]" ++ value.shown ++ "\x7b" ++ pairs ++ "\x7d")

def deletion (n : Node) (targets : List Node) : Emit (Option String) := do
  let d := dialect visit
  let texts ← targets.mapM fun t => do
    match t.shape with
    | .subscript v i _ =>
      let c ← d.say v
      let i ← d.say i
      let type ← native.typeOf v
      let generic ← match ← hintOf v with
        | some ⟨_, _, _, .subscript v _ _⟩ => pure (← current v).ident?
        | _ => pure none
      let starts (s : String) := type.any fun t => Text.startsWith t s
      if generic == some "Dict" || starts "map[" then return some ("delete(" ++ c ++ ", " ++ i ++ ")")
      else if generic == some "List" || starts "[]" then
        return some (c ++ " = append(" ++ c ++ "[:" ++ i ++ "], " ++ c ++ "[" ++ i ++ "+1:]...)")
      else d.step n
    | _ => d.step n
  return some (← join "\n" texts)

def raisedText (body : List Node) : String :=
  (body.findSome? fun s => match s.shape with
    | .raise (some e) _ =>
      match e.shape with
      | .call _ (a :: _) _ =>
        match a.shape with
        | .constant (.str s) _ => some (Text.replaceAll (Text.replaceAll s "\\" "\\\\") "\"" "\\\"")
        | _ => none
      | _ => none
    | _ => none).getD "exception"

def attemptBlock (t : Attempt Node) : Emit (Option String) := do
  let d := dialect visit
  let handled ← match t.handlers with
    | [] => pure []
    | h :: _ =>
      let bound ← match h.shape with
        | .exceptHandler _ (some name) _ =>
          using_ "\"fmt\""
          pure [name ++ " := fmt.Errorf(\"" ++ raisedText t.body ++ "\")", "_ = " ++ name]
        | _ => pure []
      pure (bound.map some ++ [← d.visit h])
  let final ← if t.final.isEmpty then pure []
    else pure (some (d.comment "finally unsupported") :: (← d.visitAll t.final))
  let all := [some "\x7b", some (d.comment "try unsupported")] ++ handled ++ final ++ [some "\x7d"]
  return some (Text.lines (all.filterMap fun s => s))

def emptyValue (type : TypeTerm) : Emit String := do
  match type with
  | .text "bool" => return "false"
  | .text "string" => return "\"\""
  | .text s =>
    if ["int", "int8", "int16", "int32", "int64", "uint", "uint8", "uint16", "uint32", "uint64"].contains s then
      return "0"
    else if s == "float32" || s == "float64" then return "0.0"
    else if Text.startsWith s "[]" || Text.startsWith s "map[" then return s ++ "\x7b\x7d"
    else return "nil"
  | .many _ => fail .wrongSort
  | .value v => if v.truthy then fail .missingPart else return "nil"
  | .absent => return "nil"

def step (n : Node) : Emit (Option String) := do
  let d := dialect visit
  match n.shape with
  | .functionDef f => functionDef visit n f
  | .ret value =>
    let result (f : Node) : Emit TypeTerm := return (← typeIfTold (style.ofReturns f)).getD .absent
    convertedReturn visit native result (fun text type => type ++ "(" ++ text ++ ")") n value
  | .lambda args body =>
    let (_, names) ← d.parameters args
    return some ("func(" ++ Text.commas (names.map (· ++ " int")) ++ ") int \x7b return " ++ (← d.say body) ++ " \x7d")
  | .attribute value attr _ => member visit n value attr
  | .call func args kwds => call visit n func args kwds
  | .forLoop l =>
    let target ← d.visit l.target
    let it ← d.say l.iter
    let head ← if target == some "_" then pure ["for range " ++ it ++ " \x7b"]
      else do
        let t ← present target
        let first := "for _, " ++ t ++ " := range " ++ it ++ " \x7b"
        pure (if Text.startsWith t "_" then [first, "_ = " ++ t] else [first])
    let body ← d.visitAll l.body
    return some (← join "\n" (head.map some ++ body ++ [some "\x7d"]))
  | .whileLoop test body _ =>
    let t ← d.say test
    d.enclosed ("for " ++ t ++ " \x7b") body
  | .constant (.imaginary x) _ =>
    return some ("complex(0.0, " ++ (Literal.float x).shown ++ ")")
  | .compare left (op :: _) (right :: _) => comparison visit n left op right
  | .name "None" _ => return some "None"
  | .name "StringsContains" _ =>
    using_ "\"strings\""
    return some "strings.Contains"
  | .name id _ => return if keywords.contains id then some (id ++ "_") else plainName id
  | .cond test body orelse => branch visit n test body orelse
  | .binOp left op right => binary visit left op right
  | .classDef _ => classDef visit n
  | .list es _ => list visit n es
  | .set es =>
    let _ ← style.ofHint n
    let element := match (← factsOf n.id).container with
      | some (_, t) => t
      | none => .absent
    let texts ← es.mapM d.say
    return some ("map[" ++ element.shown ++ "]bool\x7b" ++ Text.commas (texts.map (· ++ ": true")) ++ "\x7d")
  | .dict keys values => dict visit n keys values
  | .delete targets => deletion visit n targets
  | .subscript value index _ =>
    let v ← d.say value
    let i ← d.say index
    if (← factsOf n.id).inHint then fail .missingPart else return some (v ++ "[" ++ i ++ "]")
  | .tuple es _ => return some (← d.commas es)
  | .starred value _ => return some ((← d.say value) ++ "...")
  | .assert test _ => return some ("if !(" ++ (← d.say test) ++ ") \x7b panic(\"assert\") \x7d")
  | .exceptHandler _ _ body => return some (← d.lines body)
  | .attempt t => attemptBlock visit t
  | .raise (some e) _ => return some ("panic(" ++ (← d.say e) ++ ")")
  | .raise none _ => return some "panic(\"raise\")"
  | .annAssign target _ value _ =>
    let t ← d.say target
    let type ← style.ofHint n
    let v ← match value with
      | some v => d.visit v
      | none => pure none
    let v ← match v with
      | some v => pure v
      | none => emptyValue type
    return some (if type == .absent then "var " ++ t ++ " = " ++ v else "var " ++ t ++ " " ++ type.shown ++ " = " ++ v)
  | _ => d.step n

def emit : Visit := Target.emitter step

def usings : Emit String := do
  let used := sorted (← get).usings
  let imports := if used.isEmpty then "" else "import (\n" ++ Text.lines used ++ ")\n"
  return "package main\n\n" ++ imports ++ "\n\n"

def target : Target where
  language := .go
  lowerings :=
    [("GoNoneCompareRewriter", Numbers.zeroForNothing), ("GoVisibilityRewriter", publish),
     ("GoIfExpRewriter", branchValues), ("GoWalrusRewriter", Hoisting.lift true)]
  analyses _ := [native.infer]
  laterLowerings := [("GoMethodCallRewriter", assignAppends), ("GoPropagateTypeAnnotation", typeContainers)]
  start _ := {}
  install := install
  emit := emit
  usings := usings

end Polyglot.Go
