import Polyglot.Target.V.Basic
import Polyglot.Target.V.Library
import Polyglot.Target.V.Prepared

/-!
# V

Functions that yield values become functions that send them through a channel. Values whose type is not known are
of type `Any`, which the text defines where it needs it. Conversions to whole numbers are marked while the text is
built and settled at its end.
-/
namespace Polyglot.V

open Session Emit Dialect Plugins

def temporary (kind : String) : Emit String := do
  modify fun p => { p with temporaries := p.temporaries + 1 }
  return "__" ++ kind ++ toString (← get).temporaries

def isMutable (scopes : List NodeId) (name : Option String) : Analysis Bool :=
  if name == some "_" then return false else Scope.isMutable name scopes

def atTop (n : Node) : Analysis Bool := do
  match ← Scope.chain? n with
  | none | some [] => return false
  | some scopes => return (← Scope.innermost scopes).shape matches .module _

def isNested (n : Node) : Bool := n.shape matches .functionDef _ | .asyncFunctionDef _ | .classDef _

def levelOf (n : Node) : Analysis Nat := return (← factsOf n.id).level.getD 0

def typeText (t : TypeTerm) : Emit String :=
  match t with
  | .text s => return s
  | _ => fail .missingPart

def isCapital (s : String) : Bool := Text.upper s == s && s.toList.any fun c => c != '_' && Text.isNameStart c

def nameText (id : String) : Option String :=
  if id == "Error" then some "ResultError"
  else if keywords.contains id then some ("@" ++ id)
  else if id == "Ellipsis" then some "none"
  else if isCapital id then some (Text.lower id)
  else plainName id

/-! ### Known functions -/

def range : Plugin := fun n vargs => do
  match ← rangeOf n vargs with
  | (start, stop, none) => return some (start ++ " .. " ++ stop)
  | _ => refuseRange vargs

/-- What is printed: texts that were joined, and the text that is being joined. -/
def printParts (visit : Visit) : List Node → List String → Emit (List String)
  | [], [] => return []
  | [], run => return ["'" ++ " ".intercalate run ++ "'"]
  | a :: rest, run => do
    let a ← current a
    let type ← native.typeOf a
    match a.shape, type with
    | .constant (.str s) _, _ => printParts visit rest (run ++ [Text.replaceAll s "'" ""])
    | _, some "string" => printParts visit rest (run ++ ["$\x7b" ++ shown (← visit a) ++ "\x7d"])
    | _, _ =>
      let before := if run.isEmpty then [] else ["'" ++ " ".intercalate run ++ "'"]
      if (← factsOf a.id).needsAnyToString then
        modify ({ · with showsAny := true })
        let v := shown (← visit a)
        return before ++ ["any_to_string(" ++ v ++ ")"] ++ (← printParts visit rest [])
      else
        let v := shown (← visit a)
        return before ++ ["(" ++ v ++ ").str()"] ++ (← printParts visit rest [])

def printLine (visit : Visit) : Plugin := fun n _ => do
  return some ("println(" ++ " + ' ' + ".intercalate (← printParts visit (callArgs n) []) ++ ")")

def firstArg (n : Node) : Emit Node :=
  match (callArgs n).head? with
  | some a => return a
  | none => fail .outOfRange

def truth (visit : Visit) : Plugin := fun n vargs => do
  if vargs.isEmpty then return some "false"
  else
    let a ← firstArg n
    let type ← native.typeOf a
    let v := shown (← visit a)
    return some (if type.any isWidth then v ++ " != 0" else "(" ++ v ++ ").bool()")

/-- A conversion to a whole number; that of a truth value is settled at once. -/
def whole : Plugin := fun n vargs => do
  if vargs.isEmpty then return some "0"
  else
    let type ← match (callArgs n).head? with
      | some a => native.typeOf a
      | none => pure none
    let v ← argAt vargs 0
    return some (if type == some "bool" then "int(" ++ v ++ ")" else "CAST_INT(" ++ v ++ ")")

def minMax : Plugin := fun n vargs => do
  using_ "arrays"
  let name := match n.shape with
    | .call func _ _ => if func.ident? == some "min" then "min" else "max"
    | _ => "max"
  let args ← if vargs.length == 1 then argAt vargs 0 else pure ("[" ++ (← join ", " vargs) ++ "]")
  return some ("arrays." ++ name ++ "(" ++ args ++ ") or \x7b panic('!') \x7d")

def openFile : Plugin := fun _ vargs => do
  using_ "os"
  let writes ← match vargs[1]? with
    | some mode =>
      let mode := Text.replaceAll (Text.replaceAll (← present mode) "'" "") "\"" ""
      pure (Text.occursIn "w" mode)
    | none => pure false
  let file ← argAt vargs 0
  return some ((if writes then "os.create(" else "os.open(") ++ file ++ ") or \x7b panic(err) \x7d")

def instanceTest : Plugin := fun _ vargs => do
  let list ← match vargs[1]? with
    | some t =>
      let t ← present t
      pure (Text.startsWith t "[" || Text.startsWith t "@type(")
    | none => pure false
  if list then return some "false"
  else return some ((← argAt vargs 0) ++ " is " ++ (← argAt vargs 1))

def methodCall (name : String) : Plugin := fun _ vargs => do
  return some ((← argAt vargs 1) ++ "." ++ name ++ "(" ++ (← argAt vargs 0) ++ ")")

def constantly (text : String) : Plugin := fun _ _ => return some text

def plugins (visit : Visit) : Plugins where
  small :=
    [("str", optionalCall "(" ").str()" "\"\""), ("floor", unaryCall "int(math.floor(" "))"),
     ("float", optionalCall "f64(" ")" "0.0"), ("len", unaryCall "" ".len"), ("sys.exit", optionalCall "exit(" ")" "exit(0)"),
     ("all", unaryCall "" ".all(it)"), ("any", unaryCall "" ".any(it)"), ("abs", unaryCall "math.abs(" ")"),
     ("round", unaryCall "math.round(" ")"),
     ("pow", fun _ vargs => do
        return some ("math.pow(" ++ (← argAt vargs 0) ++ ", " ++ (← argAt vargs 1) ++ ")")),
     ("sum", unaryCall "arrays.sum(" ") or \x7b 0 \x7d"), ("input", optionalCall "os.input(" ")" "os.input()"),
     ("type", unaryCall "typeof(" ").name"), ("id", unaryCall "ptr_str(" ")"), ("isinstance", instanceTest),
     ("list", optionalCall "" "" "[]"), ("tuple", optionalCall "" "" "[]"), ("set", optionalCall "" "" "[]"),
     ("dict", optionalCall "" "" "\x7b\x7d"), ("getattr", constantly "none"), ("setattr", constantly "none"),
     ("hasattr", constantly "false"), ("os.path.exists", unaryCall "os.exists(" ")"),
     ("os.remove", unaryCall "os.rm(" ") or \x7b panic(err) \x7d")]
  smallUsings :=
    [("floor", "math"), ("abs", "math"), ("round", "math"), ("pow", "math"), ("sum", "arrays"), ("input", "os")]
  byFunction :=
    [("range", range, false), ("print", printLine visit, false), ("bool", truth visit, false),
     ("int", whole, false), ("min", minMax, false), ("max", minMax, false), ("map", methodCall "map", false),
     ("filter", methodCall "filter", false),
     ("sorted", unaryCall "(fn (a []Any) []Any \x7b mut b := a.clone(); b.sort(); return b \x7d(" "))", false),
     ("enumerate", unaryCall "" " /* enumerate is usually used in for loops in V */", false),
     ("zip", fun _ vargs => do
        return some ("/* zip(" ++ (← join ", " vargs) ++ ") not fully supported as expression */"), false),
     ("open", openFile, true)]
  byLeaf :=
    [("divmod", fun _ vargs => do
        let a ← argAt vargs 0
        let b ← argAt vargs 1
        return some ("(" ++ a ++ " / " ++ b ++ ", " ++ a ++ " % " ++ b ++ ")"), false)]

/-! ### Rules -/

def param (n : Node) : Emit (TypeTerm × String) := do
  match n.shape with
  | .arg "self" _ => return (.absent, "self")
  | .arg id hint =>
    let type ← match hint with
      | some _ => style.ofHint n
      | none => pure (.text ((← native.typeOf n).getD ""))
    let mutable ← isMutable (← Scope.chainOf n) (some id)
    return (type, if mutable then "mut " ++ id else id)
  | _ => fail .missingPart

def moreParams (p : Parameters Node) : Emit (List (TypeTerm × String)) := do
  match p.vararg with
  | none => return []
  | some v =>
    let (t, id) ← guarded v (param v)
    let t ← typeText t
    let t := if Text.startsWith t "[]" then Text.dropStart t 2 else t
    return [(.text ("..." ++ t), id ++ " ..." ++ t)]

def byteList (bs : List UInt8) : String :=
  match bs.map fun b => "0x" ++ Text.hex b.toNat with
  | [] => "[]u8\x7b\x7d"
  | b :: bs => "[" ++ Text.commas (("u8(" ++ b ++ ")") :: bs) ++ "]"

def importOne (name : String) : Emit (Option String) := do
  if !(Prepared.skipsImport name || LibraryCall.isLibrary name) then using_ (Text.replaceAll name "/" ".")
  return some ""

def importFrom (source : String) (names : List String) : Emit (Option String) := do
  if Prepared.skipsImportFrom source then return some ""
  else if source == "." then
    names.forM using_
    return some ""
  else if LibraryCall.isLibrary source then return some ""
  else if names == ["settings"] then
    using_ source
    return some ""
  else
    if !names.isEmpty then using_ (source ++ " \x7b " ++ " ".intercalate names ++ " \x7d")
    return some ""

def dialect (visit : Visit) : Dialect where
  visit := visit
  style := style
  symbols := symbols
  separator := ""
  nothing := "none"
  comment text := "// " ++ text ++ "\n"
  quote _ s := return some (Text.quoted s)
  bytes _ bs := return some (byteList bs)
  ellipsis := return some "none"
  isIn := contained visit
  importOne := importOne
  importFrom source names _ := importFrom source names
  param := param
  moreParams := moreParams
  start := { indentUnit := 2 }
  install := install

variable (visit : Visit)

/-! ### Functions -/

/-- The type of what a function yields: the one type, the widest of several numbers, or any. -/
def yieldType (n : Node) : Emit String := do
  let values := (← Pass.nodesOf n).filterMap fun m => match m.shape with
    | .yield v => v
    | _ => none
  let types ← values.filterMapM fun v => do
    match ← native.typeOf v with
    | some "" | none => return none
    | t => return t
  match types with
  | [] => return "Any"
  | t :: ts =>
    if ts.all (· == t) then return t
    else if types.all isWidth then
      return ts.foldl (fun best t => if native.rankOf (some best) < native.rankOf (some t) then t else best) t
    else return "Any"

def ownerOf (n : Node) : Emit (Option (Node × Class Node)) := do
  match ((← Scope.chain? n).getD []).reverse with
  | _ :: s :: _ =>
    let s ← nodeOf s
    match s.shape with
    | .classDef c => return some (s, c)
    | _ => return none
  | _ => return none

def typeParams : List String := "ABDEFGHIJKLMNOPQRSTUVWXYZ".toList.map Char.toString

/-- A parameter's type as it is written; one that is not known is a type parameter, or any in a method. -/
def paramType (n : Node) (method : Bool) (generics : List String) (type : Option String) :
    Emit (String × List String) := do
  let open_ := match type with
    | none | some "" | some "..." | some "...Any" => true
    | _ => false
  let single := type == some "" || type == some "Any"
  let (type, generics) :=
    if !open_ then (type, generics)
    else if method then (some (if single then "Any" else "...Any"), generics)
    else
      match typeParams.find? fun c => !(generics.contains c) with
      | some c => (some (if single then c else "..." ++ c), generics ++ [c])
      | none => (type, generics)
  match type with
  | some "" | some "..." => refuse "Cannot use more than 26 generics in a function." n
  | t => return (shown t, generics)

def resultType (n : Node) (f : Function Node) (owner : Option (Node × Class Node)) (receiver : String)
    (generator : Bool) : Emit (Option String) := do
  let ret ← style.ofReturns n
  let told := ret.given && !ret.isText "void"
  match f.name, owner with
  | "__init__", some (_, c) => return some c.name
  | _, _ =>
    let gives ← if told then pure true else pure !(← Tracing.isVoid n)
    if gives then
      let enters := f.name == "__enter__" && f.body.any fun s => match s.shape with
        | .ret (some v) => v.ident? == some receiver
        | _ => false
      let type : TypeTerm := match told, enters, owner with
        | true, _, _ => ret
        | false, true, some (_, c) => .text c.name
        | false, _, _ => .text "Any"
      match type with
      | .text s =>
        let closed := Text.startsWith s "(" && Text.endsWith s ")"
        return some (if Text.occursIn "," s && !closed then "(" ++ s ++ ")" else s)
      | _ => fail .wrongSort
    else if generator then return some ("chan " ++ (← yieldType n))
    else return none

def sendingBody (n : Node) (receiver : Option String) (params : List String) (body : List Node) :
    Emit (List String) := do
  let type ← yieldType n
  let first ← indented ("ch := chan " ++ type ++ "\x7bcap: 100\x7d")
  let captured := ["ch"] ++ receiver.toList ++ params
  let second ← indented ("spawn fn [" ++ Text.commas captured ++ "]() \x7b")
  let third ← indented "defer \x7b ch.close() \x7d" 2
  let lines ← body.mapM fun s => do
    let text ← present (← visit s)
    (Text.splitLines text).mapM fun l => indented l 2
  return [first, second, third] ++ lines.flatten ++ [← indented "\x7d()", ← indented "return ch"]

def makingBody (c : Class Node) (receiver : String) (body : List Node) (lines : List String) :
    Emit (List String) := do
  let hook := c.body.any fun b => match b.shape with
    | .functionDef f => f.name == "__post_init__"
    | _ => false
  let called := body.any fun s => match s.shape with
    | .exprStmt v =>
      match v.shape with
      | .call func _ _ => func.ident? == some (receiver ++ ".__post_init__")
      | _ => false
    | _ => false
  let first ← indented ("mut " ++ receiver ++ " := " ++ c.name ++ "\x7b\x7d")
  let hookLine ← if hook && !called then do pure [← indented (receiver ++ ".__post_init__()")] else pure []
  return [first] ++ lines ++ hookLine ++ [← indented ("return " ++ receiver)]

def functionDef (n : Node) (f : Function Node) : Emit (Option String) := do
  let owner ← ownerOf n
  let method := owner.isSome
  let generator ← Tracing.isGenerator n
  let p ← match f.args.shape with
    | .parameters p => pure p
    | _ => fail .missingPart
  let all ← p.args.mapM fun a => do guarded a (param (← current a))
  let receiver := match all with
    | (_, id) :: _ => if method then Text.replaceAll id "mut " "" else "self"
    | [] => "self"
  let plain := if method then all.drop 1 else all
  let plain ← plain.mapM fun (t, id) => do
    match t with
    | .text s => return (some s, id)
    | .absent => return (none, id)
    | .many [_] => fail .missingPart
    | .value _ => fail .wrongSort
    | .many _ => fail .wrongSort
  let generics := (plain.filterMap fun (t, _) => t.filter fun s => s.length == 1 && Text.isUpper s).eraseDups
  let rest ← match p.vararg with
    | none => pure []
    | some v =>
      let (t, id) ← guarded v (param (← current v))
      let text := "..." ++ t.shown
      let type := if !t.given then "...Any"
        else if Text.startsWith text "...[]" then "..." ++ Text.dropStart text 5 else text
      pure [(some type, id)]
  let args := plain ++ rest
  let isInit := f.name == "__init__"
  let name := match isInit, owner with
    | true, some (_, c) => "new_" ++ Text.lower c.name
    | _, _ => if f.name == "__del__" then "free" else f.name
  let own := match owner with
    | some (_, c) => if isInit then [] else ["(mut " ++ receiver ++ " " ++ c.name ++ ")"]
    | none => []
  let (params, generics) ← args.foldlM (fun (acc : List String × List String) (t, id) => do
    let (t, generics) ← paramType n (method && !isInit) acc.2 t
    return (acc.1 ++ [id ++ " " ++ t], generics)) ([], generics)
  let template := if generics.isEmpty then [] else ["[" ++ Text.commas (sorted generics) ++ "]"]
  let result ← resultType n f owner receiver generator
  let nested := f.body.filter isNested
  let body := f.body.filter fun b => !isNested b
  let before ← (dialect visit).lines nested
  let lines ← if generator then
      sendingBody visit n (if method then some receiver else none)
        (args.map fun (_, id) => Text.replaceAll id "mut " "") body
    else do
      let lines ← body.mapM fun s => do indented (← require (← visit s))
      match isInit, owner with
      | true, some (_, c) => makingBody c receiver body lines
      | _, _ => pure lines
  let signature := " ".intercalate (["fn"] ++ own ++ [name] ++ template ++ ["(" ++ Text.commas params ++ ")"] ++
    result.toList)
  let signature := Text.replaceFirst signature (name ++ " ") name
  let signature := Text.replaceAll signature "] (" "]("
  let code := signature ++ " \x7b\n" ++ Text.lines lines ++ "\n\x7d"
  return some (if before.isEmpty then code else before ++ "\n" ++ code)

def captured (n body : Node) (own : List (Option String)) : Emit (List String) := do
  let names ← (← Pass.nodesOf body).filterMapM fun m => do
    match m.shape with
    | .name id usage =>
      match usage with
      | .unset => fail .missingPart
      | .load =>
        if own.contains (some id) then return none
        else
          match ← Scope.chain? n with
          | none => return none
          | some scopes =>
            match ← Scope.find scopes (some id) with
            | none => return none
            | some d =>
              return if d.shape matches .module _ | .functionDef _ then none else some id
      | _ => return none
    | _ => return none
  return sorted names.eraseDups

def lambda (n args body : Node) : Emit (Option String) := do
  let p ← match args.shape with
    | .parameters p => pure p
    | _ => fail .missingPart
  let names ← captured n body (p.args.map Node.ident?)
  let capture := if names.isEmpty then "" else "[" ++ Text.commas names ++ "] "
  let (params, result) ← match ← functionParts n with
    | none => pure ([], .absent)
    | some (ps, r) => pure (← ps.mapM fun e => style.ofNode (some e), ← style.ofNode (some r))
  let texts ← p.args.zipIdx.mapM fun (a, i) => do
    let type := (← native.typeOf a).getD ""
    let type := if type.isEmpty then (params[i]?.filter TypeTerm.given).elim "Any" TypeTerm.shown else type
    let id := shown a.ident?
    let mutable ← isMutable (← Scope.chainOf n) a.ident?
    return (if mutable then "mut " ++ id else id) ++ " " ++ type
  let text := shown (← visit body)
  let type := (← native.typeOf body).getD ""
  let type := if type.isEmpty then (if result.given then result.shown else "Any") else type
  return some ("fn " ++ capture ++ "(" ++ Text.commas texts ++ ") " ++ type ++ " \x7b return " ++ text ++ " \x7d")

/-! ### Calls -/

def isCallOf (name : String) (n : Node) : Bool :=
  match n.shape with
  | .call func _ _ => func.ident? == some name
  | _ => false

def member (value : Node) (attr : String) : Emit (Option String) := do
  let v ← visit value
  let v ← if isCallOf "range" value then do
      let s ← require v
      pure (some (if Text.occursIn ".." s then "(" ++ s ++ ")" else s))
    else pure v
  if attr == "append" && (← Tracing.isList value) then return some (shown v ++ " <<")
  else
    let v := v.getD ""
    if v == "ast" then
      let first := Text.head attr
      return some (if Text.isLower first then Text.upper first ++ Text.dropStart attr 1 else attr)
    else
      let attr := if isCapital attr then Text.lower attr else attr
      let opened := Text.occursIn "os.open" v || Text.occursIn "os.create" v || v == "f"
      if attr == "write" && opened then return some (v ++ ".write_string")
      else if attr == "name" && Text.occursIn "temp_file" v then
        return some "os.join_path(os.temp_dir(), 'temp_file')"
      else if v ++ "." ++ attr == "sys.argv" then
        using_ "os"
        return some "os.args"
      else
        let page ← get
        let (v, attr) := if page.numberEnums.contains v then (v, Text.lower attr)
          else if page.textEnums.contains v then (Text.lower v, Text.lower attr)
          else (v, attr)
        match byPath Library.values value attr with
        | some (package, text) =>
          using_ package
          return some text
        | none => return some (v ++ "." ++ attr)

def keywordNamed (kwds : List Node) (name : String) : Option Node :=
  kwds.findSome? fun k => match k.shape with
    | .keyword (some n) v => if n == name then some v else none
    | _ => none

def textOf? (n : Node) : Option String :=
  match n.shape with
  | .constant (.str s) _ => some s
  | _ => none

def commandOption (args kwds : List Node) : Emit CommandOption := do
  let names := args.filterMap textOf?
  let name ← match (keywordNamed kwds "dest").bind textOf? with
    | some d => pure d
    | none =>
      match (names.filter (Text.startsWith · "--")).getLast? <|> names.getLast? with
      | some s => pure (Text.replaceAll (String.ofList (s.toList.dropWhile (· == '-'))) "-" "_")
      | none => fail .outOfRange
  let letter := (names.findSome? fun s => match s.toList with
    | ['-', c] => if c == '-' then none else some ("\x60" ++ c.toString ++ "\x60")
    | _ => none).getD "0"
  let action := ((keywordNamed kwds "action").bind textOf?).getD ""
  let isInt := (keywordNamed kwds "type").any fun t => t.isName && t.ident? == some "int"
  let (type, default) := if action == "store_true" then ("bool", "false")
    else if action == "store_false" then ("bool", "true")
    else if isInt then ("int", "0")
    else ("string", "''")
  let default ← match keywordNamed kwds "default" with
    | none => pure default
    | some d => if d.shape matches .constant .nothing _ then pure default else require (← visit d)
  let help := ((keywordNamed kwds "help").bind textOf?).elim "''" Text.quoted
  return { name, type, default, help, letter }

def readOptions (reader : String) : Emit String := do
  let options := ((← get).commandOptions.lookup reader).getD []
  let fields ← options.mapM fun o =>
    indented (o.name ++ ": " ++ reader ++ "." ++ o.type ++ "('" ++ o.name ++ "', " ++ o.letter ++ ", " ++ o.default ++
      ", " ++ o.help ++ ", flag.FlagConfig\x7b\x7d)")
  return if fields.isEmpty then "ArgparseArgs\x7b\x7d" else "ArgparseArgs\x7b\n" ++ Text.lines fields ++ "\n\x7d"

def optionRecord : Emit String := do
  let all := ((← get).commandOptions.map (·.2)).flatten
  let names := sorted (all.map (·.name)).eraseDups
  if names.isEmpty then return ""
  else
    let fields ← names.mapM fun name =>
      indented (name ++ " " ++ ((all.reverse.find? (·.name == name)).elim "" (·.type)))
    return Text.lines (["struct ArgparseArgs \x7b", "pub mut:"] ++ fields ++ ["\x7d"])

def mapRange (list elt : Node) : Emit (Option String) := do
  let it := shown (← visit list)
  let e := shown (← visit elt)
  let type := (← native.typeOf elt).getD ""
  let type := if type.isEmpty then "int" else type
  return some (Text.lines
    ["(fn () []" ++ type ++ " \x7b", ← indented ("mut result := []" ++ type ++ "\x7b\x7d"),
     ← indented ("for it in " ++ it ++ " \x7b"), ← indented ("result << " ++ e) 2, ← indented "\x7d",
     ← indented "return result", "\x7d())"])

def keyed (kwds : List Node) : Emit (List String) :=
  kwds.filterMapM fun k => do
    match k.shape with
    | .keyword name v => return some (shown name ++ ": " ++ shown (← visit v))
    | _ => return none

def newObject (name : String) (cls : Class Node) (args kwds : List Node) : Emit (Option String) := do
  let vargs ← args.mapM visit
  let fields ← keyed visit kwds
  let hasInit := cls.body.any fun b => match b.shape with
    | .functionDef f => f.name == "__init__"
    | _ => false
  if !kwds.isEmpty && !hasInit && vargs.isEmpty then return some (name ++ "\x7b" ++ Text.commas fields ++ "\x7d")
  else
    let all := vargs ++ fields.map some
    if all.isEmpty then return some (name ++ "\x7b\x7d")
    else return some ("new_" ++ Text.lower name ++ "(" ++ (← join ", " all) ++ ")")

def paramsOf (d : Option Node) : Emit (Option (Parameters Node)) := do
  match d.map Node.shape with
  | some (.functionDef f) | some (.asyncFunctionDef f) =>
    match (← current f.args).shape with
    | .parameters p => return some p
    | _ => return none
  | _ => return none

/-- An argument; a function that is given as any value is a pointer, and what the function changes is marked. -/
def argument (d : Option Node) (p : Option (Parameters Node)) (a : Node) (i : Nat) : Emit String := do
  let text ← present (← visit a)
  let param := if a.isStarred then none else p.bind fun p => p.args[i]?
  match param, d with
  | some q, some d =>
    let q ← current q
    let isFn := Text.startsWith text "fn " || Text.occursIn "fn [" text
    let any ← if isFn then do pure ((← style.ofHint q).isText "Any") else pure false
    let text := if any then "voidptr(" ++ text ++ ")" else text
    if ← isMutable (← Scope.chainOf d) q.ident? then return "mut " ++ text else return text
  | _, _ => return text

/-- Arguments beyond the plain parameters are converted to the type of the rest. -/
def convertRest (d : Node) (p : Parameters Node) (rest : Node) (args : List Node) (vargs : List (Option String)) :
    Emit (List (Option String)) := do
  let rest ← current rest
  let start := if (← ownerOf d).isSome then p.args.length - 1 else p.args.length
  vargs.zipIdx.mapM fun (v, i) => do
    if i < start then return v
    else
      match args[i]? with
      | none => fail .outOfRange
      | some a =>
        let type ← match rest.shape with
          | .arg _ (some _) => do pure (← style.ofHint rest).shown
          | _ => pure "Any"
        let v ← present v
        if a.isStarred then return some ("..." ++ Text.dropStart v 3 ++ ".map(" ++ type ++ "(it))")
        else if Text.startsWith v "Any(" || Text.startsWith v (type ++ "(") then return some v
        else return some (type ++ "(" ++ v ++ ")")

def checked (s : String) : String := if Text.occursIn "write_string" s then s ++ " or \x7b panic(err) \x7d" else s

/-- A call of a function of the library, by the path or else as a method of a text. -/
def libraryCall (func : Node) (vargs : List (Option String)) : Emit (Option String) := do
  match func.shape with
  | .attribute value attr _ =>
    match attr == "append", vargs with
    | true, [v] =>
      let r ← require (← visit value)
      let text := r ++ " << " ++ shown v
      return some (if Text.occursIn "[" r then "/* " ++ text ++ " */" else text)
    | _, _ =>
      match byPath Library.calls value attr <|> Library.calls.lookup ("str." ++ attr) with
      | some f => f (return shown (← visit value)) vargs
      | none => return none
  | _ => return none

def methodOf (n func : Node) (name : String) (vargs : List (Option String)) : Emit (Option String) := do
  let receiver := (Plugins.split name).1
  let untyped : Emit Bool := do
    match func.shape with
    | .attribute v _ _ =>
      match ← native.typeOf v with
      | none | some "Any" | some "os.File" => return true
      | _ => return false
    | _ => return true
  if Text.endsWith name ".read" then
    if ← untyped then
      match ← Scope.find (← Scope.chainOf n) (some "file_path") with
      | none => return none
      | some _ =>
        if vargs.isEmpty then return some "(os.read_file(file_path) or \x7b '' \x7d)"
        else return some (receiver ++ ".read_bytes(" ++ (← argAt vargs 0) ++ ").bytestr()")
    else return none
  else if Text.endsWith name ".write" then
    if ← untyped then
      return some (receiver ++ ".write_string(" ++ (← join ", " vargs) ++ ") or \x7b panic(err) \x7d")
    else return none
  else if Text.endsWith name ".clear" then
    return some ("/* " ++ receiver ++ ".clear() */ " ++ receiver ++ " = \x7b\x7d")
  else return none

def plainCall (n func : Node) (name : String) (d : Option Node) (args kwds : List Node) : Emit (Option String) := do
  let p ← paramsOf d
  let first ← args.zipIdx.mapM fun (a, i) => argument visit d p a i
  let vargs := first.map some ++ (← (keywordValues kwds).mapM visit)
  match ← libraryCall visit func vargs with
  | some s => return some s
  | none =>
    match ← (plugins visit).dispatch n (some name) vargs with
    | some s => return some (checked s)
    | none =>
      match ← methodOf n func name vargs with
      | some s => return some s
      | none =>
        let vargs ← match d, p.bind fun p => p.vararg.map fun v => (p, v) with
          | some d, some (p, v) => convertRest d p v args vargs
          | _, _ => pure vargs
        return some (checked (name ++ "(" ++ (← join ", " vargs) ++ ")"))

def isCapitalised (s : String) : Bool := Text.isUpper (Text.head s)

def call (n func : Node) (args kwds : List Node) : Emit (Option String) := do
  let receiver := match func.shape with
    | .attribute v attr _ => (v.ident?.filter fun s => !s.isEmpty).map fun id => (id, attr)
    | _ => none
  let overRange := match func.shape, args with
    | .attribute v "map" _, [a] => if isCallOf "range" v then some (v, a) else none
    | _, _ => none
  match receiver, overRange with
  | some (id, "add_argument"), _ =>
    let o ← commandOption visit args kwds
    modify fun (p : Page) =>
      let old := (p.commandOptions.lookup id).getD []
      { p with commandOptions :=
          if p.commandOptions.any (·.1 == id) then
            p.commandOptions.map fun (k, os) => if k == id then (k, old ++ [o]) else (k, os)
          else p.commandOptions ++ [(id, [o])] }
    return some ""
  | some (id, "parse_args"), _ | some (id, "parse_known_args"), _ => return some (← readOptions id)
  | _, some (list, elt) => mapRange visit list elt
  | _, none =>
    let name ← visit func
    let d ← match ← Scope.chain? n with
      | some scopes => Scope.find scopes name
      | none => pure none
    match d, name with
    | some ⟨_, _, _, .classDef c⟩, some name => newObject visit name c args kwds
    | _, none => fail .missingPart
    | _, some name =>
      if Text.startsWith name "ast." && isCapitalised (Text.dropStart name 4) then
        return some (Text.dropStart name 4 ++ "\x7b\x7d")
      else if !(Text.occursIn "." name) && isCapitalised name then
        return some (name ++ "\x7b" ++ Text.commas (← keyed visit kwds) ++ "\x7d")
      else plainCall visit n func name d args kwds

/-! ### Values -/

def joined (values : List Node) : Emit (Option String) := do
  let special := match values.map (·.shape) with
    | [.constant (.str a) _, .formatted v _ _, .constant (.str b) _] => some (a, v, b)
    | _ => none
  match special with
  | some ("$\x7b", v, "\x7d") => return some ("'$' + '\x7b' + " ++ (← require (← visit v)) ++ " + '\x7d'")
  | some ("'", v, "'") => return some ("\"\\'\" + " ++ shown (← visit v) ++ " + \"\\'\"")
  | some ("'", v, "' \x7b") => return some ("\"\\'\" + " ++ shown (← visit v) ++ " + \"\\' \x7b\"")
  | _ =>
    let parts ← values.mapM fun v => do
      match v.shape with
      | .constant c _ => return c.shown
      | .formatted v _ _ =>
        let text := shown (← visit v)
        if (← factsOf v.id).needsAnyToString then
          modify ({ · with showsAny := true })
          return "$\x7bany_to_string(" ++ text ++ ")\x7d"
        else return "$\x7b" ++ text ++ "\x7d"
      | _ => return "$\x7b" ++ shown (← visit v) ++ "\x7d"
    return some ("'" ++ String.join parts ++ "'")

def binary (left : Node) (op : BinOp) (right : Node) : Emit (Option String) := do
  let d := dialect visit
  let l ← d.say left
  let r ← d.say right
  if op == .pow then
    using_ "math"
    return some ("int(math.pow(" ++ l ++ ", " ++ r ++ "))")
  else
    let lt ← style.ofHint left
    let rt ← style.ofHint right
    let lr ← native.termRank lt
    let rr ← native.termRank rt
    let repeats ← if op == .mult && rt.isText "int" then do
        if lt.isText "string" then pure true else pure (Text.startsWith (← typeText lt) "[]")
      else pure false
    if repeats then return some ("(" ++ l ++ ".repeat(" ++ r ++ "))")
    else
      let widen (wide narrow : TypeTerm) (text : String) : String :=
        if wide.isText "int" && !narrow.isText "bool" then "CAST_INT(" ++ text ++ ")"
        else if narrow.isText "bool" then "int(" ++ text ++ ")"
        else wide.shown ++ "(" ++ text ++ ")"
      let r' := if lr > rr then widen lt rt r else r
      let l' := if rr > lr then widen rt lt l else l
      let symbol := d.binarySymbol op
      let symbol := if lt.isText "bool" || rt.isText "bool" then
          (([("&", "&&"), ("|", "||"), ("^", "!=")] : List (String × String)).lookup symbol).getD symbol
        else symbol
      return some ("(" ++ l' ++ " " ++ symbol ++ " " ++ r' ++ ")")

def logic (op : BoolOp) (values : List Node) : Emit (Option String) := do
  let (deciding, word) := match op with
    | .and => (false, "false")
    | .or => (true, "true")
  let decided := values.any fun v => match v.shape with
    | .constant (.bool b) _ => b == deciding
    | _ => false
  if decided then return some word
  else
    let texts ← values.mapM visit
    if texts.contains (some word) then return some word
    else return some (← join (shown (symbols.logic op)) texts)

/-- The first element of a list in brackets is converted, any other list element by element. -/
def converted (type part : String) : String :=
  if Text.startsWith part "[" then
    match Text.cut? (Text.dropStart part 1) "," with
    | some (a, b) => "[" ++ type ++ "(" ++ a ++ ")," ++ b
    | none => "[" ++ type ++ "(" ++ Text.dropLast (Text.dropStart part 1) 1 ++ ")]"
  else part ++ ".map(" ++ type ++ "(it))"

/-- A list of which some elements are lists that are put in. -/
def concat (n : Node) (elts : List Node) : Emit (Option String) := do
  using_ "arrays"
  let type ← if ← hasHint n then do
      let t ← typeText (← style.ofHint n)
      pure (if Text.startsWith t "[]" then Text.dropStart t 2 else t)
    else pure "Any"
  let close (run : List (Option String)) : Emit (List (Option String)) := do
    if run.isEmpty then return [] else return [some ("[" ++ (← join ", " run) ++ "]")]
  let (parts, run) ← elts.foldlM (fun (acc : List (Option String) × List (Option String)) e => do
    match e.shape with
    | .starred v _ =>
      let before ← close acc.2
      return (acc.1 ++ before ++ [← visit v], [])
    | _ => return (acc.1, acc.2 ++ [← visit e])) ([], [])
  match parts ++ (← close run) with
  | [p] => return p
  | [] => fail .outOfRange
  | ps =>
    let ps ← ps.mapM fun p => do pure (converted type (← present p))
    match ps with
    | p :: ps => return some (ps.foldl (fun acc p => "arrays.concat(" ++ acc ++ ", ..." ++ p ++ ")") p)
    | [] => fail .outOfRange

def list (n : Node) (elts : List Node) : Emit (Option String) := do
  if elts.any Node.isStarred then concat visit n elts
  else return some ("[" ++ (← (dialect visit).commas elts) ++ "]")

def loops (generators : List Node) (pad : String) (item : Emit String) : Emit (List String) := do
  let parts ← generators.mapM fun g => do
    match g.shape with
    | .comprehension target iter ifs _ =>
      let t ← match target.shape with
        | .name id _ => pure id
        | _ => do pure (shown (← visit target))
      let head := "for " ++ t ++ " in " ++ shown (← visit iter) ++ " \x7b"
      let tests ← ifs.mapM fun c => do pure (pad ++ "if " ++ shown (← visit c) ++ " \x7b")
      return [head] ++ tests ++ [pad ++ pad ++ (← item)] ++ ifs.map (fun _ => pad ++ "\x7d") ++ ["\x7d"]
    | _ => fail .missingPart
  return parts.flatten

def dictComp (key value : Node) (generators : List Node) : Emit (Option String) := do
  if generators.isEmpty then return some "\x7b\x7d"
  else
    let known (t : Option String) := t.filter fun s => s != "" && s != "Any"
    let overRange := key.isName && generators.any fun g => match g.shape with
      | .comprehension target iter _ _ =>
        target.isName && target.ident? == key.ident? && isCallOf "range" iter
      | _ => false
    let keyType := (known (← native.typeOf key)).getD (if overRange then "int" else "string")
    let valueType := (← native.typeOf value).getD ""
    let valueType := if valueType.isEmpty then "Any" else valueType
    let type := "map[" ++ keyType ++ "]" ++ valueType
    let lines ← loops visit generators "" do
      let k := shown (← visit key)
      return "result[" ++ k ++ "] = " ++ shown (← visit value)
    return some (Text.lines (["(fn () " ++ type ++ " \x7b", "mut result := " ++ type ++ "\x7b\x7d"] ++ lines ++
      ["return result", "\x7d())"]))

/-- A comprehension that was not made a chain. -/
def comprehension (n elt : Node) (generators : List Node) : Emit (Option String) := do
  if generators.isEmpty then refuse "GeneratorExp with no generators" n
  else
    let lines ← loops visit generators "    " do return "result << " ++ shown (← visit elt)
    return some (Text.lines (["mut result = []"] ++ lines ++ ["result"]))

def subscript (n value index : Node) : Emit (Option String) := do
  let v ← visit value
  let i ← visit index
  if (← factsOf n.id).inHint then
    let v := shown v
    let v := (((← get).session.maps.containers).lookup v).getD v
    let i := shown i
    return some (if v == "Tuple" then "(" ++ i ++ ")" else if v == "[]" then "[]" ++ i else v ++ "[" ++ i ++ "]")
  else
    let i ← present i
    let v := shown v
    let back := Text.dropStart i 1
    if Text.startsWith i "-" && Text.isDigits back then return some (v ++ "[" ++ v ++ ".len - " ++ back ++ "]")
    else return some (v ++ "[" ++ i ++ "]")

/-! ### Blocks -/

/-- Statements some levels in, without the functions and classes among them. -/
def inner (level : Nat) (body : List Node) : Emit (List String) :=
  (body.filter fun b => !isNested b).mapM fun b => do indented (← require (← visit b)) level

def yields (callee : Node) (scopes : List NodeId) : Emit Bool := do
  let name ← visit callee
  match ← Scope.find scopes name with
  | none => return false
  | some d => if d.shape matches .functionDef _ | .asyncFunctionDef _ then Tracing.isGenerator d else return false

/-- The channel that a loop reads from, with what has to be said before; else nothing. -/
def channelOf (iter : Node) : Emit (Option (List String × String)) := do
  let found ← match iter.shape, ← Scope.chain? iter with
    | .call func _ _, some scopes =>
      if ← yields visit func scopes then
        let text := shown (← visit iter)
        let tmp ← temporary "gen"
        pure (some ([tmp ++ " := " ++ text], tmp))
      else pure none
    | .name id _, some scopes =>
      let source ← match ← Scope.find scopes (some id) with
        | none => pure none
        | some d =>
          match (← factsOf d.id).assignedFrom with
          | none => pure none
          | some s =>
            match (← nodeOf s).shape with
            | .assign _ v | .augAssign _ _ v | .annAssign _ _ (some v) _ => do pure (some (← current v))
            | _ => pure none
      match source with
      | some c =>
        match c.shape, ← Scope.chain? c with
        | .call func _ _, some scopes =>
          if ← yields visit func scopes then pure (some ([], shown (← visit iter))) else pure none
        | _, _ => pure none
      | none => pure none
    | _, _ => pure none
  match found with
  | some c => return some c
  | none =>
    match ← native.typeOf iter with
    | some t => if Text.occursIn "chan" t then return some ([], shown (← visit iter)) else return none
    | none => return none

def forLoop (n : Node) (l : Loop Node) : Emit (Option String) := do
  let d := dialect visit
  let target ← d.say l.target
  let elts := match l.target.shape with
    | .tuple es _ | .list es _ => some es
    | _ => none
  let names ← ((elts.getD []).filter fun e => e.isName && e.ident? != some "_").mapM d.say
  let target ← if elts.isSome then temporary "item" else pure target
  let level := (← levelOf n) + 1
  let rangeArgs := match l.iter.shape with
    | .call func args _ => if func.ident? == some "range" && args.length ≤ 3 then some args else none
    | _ => none
  let head ← match rangeArgs with
    | some [a, b, c] =>
      let start ← d.say a
      let stop ← d.say b
      let step ← d.say c
      pure ["for " ++ target ++ " := " ++ start ++ "; " ++ target ++ " < " ++ stop ++ "; " ++ target ++ " += " ++ step ++
        " \x7b"]
    | some [a, b] =>
      let start ← d.say a
      pure ["for " ++ target ++ " in " ++ start ++ " .. " ++ (← d.say b) ++ " \x7b"]
    | some [a] => pure ["for " ++ target ++ " in 0 .. " ++ (← d.say a) ++ " \x7b"]
    | some _ => fail .outOfRange
    | none =>
      match ← channelOf visit l.iter with
      | some (before, channel) =>
        pure (before ++ ["for \x7b", ← indented (target ++ " := <-" ++ channel ++ " or \x7b break \x7d") level])
      | none =>
        let it ← require (← visit l.iter)
        let it := if Text.occursIn "/*" it then "[]Any\x7b\x7d" else it
        pure ["for " ++ target ++ " in " ++ it ++ " \x7b"]
  let parts ← names.mapM fun t => indented ("mut " ++ t ++ " := Any(0)") level
  let body ← inner visit level l.body
  return some (Text.lines (head ++ parts ++ body ++ ["\x7d"]))

def whileLoop (n test : Node) (body : List Node) : Emit (Option String) := do
  let head ← match test.shape with
    | .constant (.bool true) _ => pure "for \x7b"
    | _ => do pure ("for " ++ shown (← visit test) ++ " \x7b")
  let level := (← levelOf n) + 1
  let body ← body.mapM fun b => do indented (← require (← visit b)) level
  return some (Text.lines ([head] ++ body ++ ["\x7d"]))

/-- The definition of a name outside of the innermost scope, or else inside it. -/
def definitionOf (n : Node) (name : Option String) : Emit (Option Node) := do
  match ← Scope.chain? n with
  | some scopes => Scope.findOutward scopes name
  | none => return none

/-- Names of which some are missing have no order. -/
def inOrder (names : List (Option String)) : Emit (List String) :=
  if names.length > 1 && names.contains none then fail .wrongSort
  else return sorted (names.filterMap fun n => n)

/-- Variables that both ways of a branch set are declared before it. -/
def branch (n test : Node) (body orelse : List Node) : Emit (Option String) := do
  let isImport (b : Node) : Bool := b.shape matches .importNames _ | .importFrom ..
  let onPlatform := match test.shape with
    | .compare left _ _ => ["CI", "ci", "sys.platform"].contains (left.ident?.getD "")
    | _ => false
  if (body ++ orelse).all isImport || onPlatform then return some ""
  else if ← atTop n then return some ""
  else
    let common ← sharedVars n
    let level ← levelOf n
    let first := Text.lines (← inner visit (level + 1) body)
    let second := Text.lines (← inner visit (level + 1) orelse)
    let names := (← inOrder common).filter fun name =>
      !(["", "orelse", "part", "res", "target", "val"].contains name)
    let new ← names.filterM fun name => do return !(← Scope.definedBefore (← definitionOf n (some name)) n)
    let set (text : String) := new.foldl (fun s name => Text.replaceAll s ("mut " ++ name ++ " :=") (name ++ " =")) text
    let t := shown (← visit test)
    let head := String.join (new.map fun name => "mut " ++ name ++ " := Any(0)\n")
    let main := head ++ "if " ++ t ++ " \x7b\n" ++ set first ++ "\n\x7d"
    if orelse.isEmpty then return some main
    else return some (main ++ " " ++ (← indented ("else \x7b\n" ++ set second ++ "\n\x7d") level))

def attemptBlock (n : Node) (t : Attempt Node) : Emit (Option String) := do
  let raised := t.body.findSome? fun b => match b.shape with
    | .raise e _ => some e
    | _ => none
  let lines ← match raised, t.handlers with
    | some exc, h :: _ =>
      let text ← match exc with
        | none => pure "'Exception'"
        | some e =>
          match e.shape with
          | .call _ (a :: _) _ => do pure (shown (← visit a))
          | _ => pure ("'" ++ shown e.ident? ++ "'")
      match h.shape with
      | .exceptHandler _ name body =>
        let bound ← match name with
          | none => pure []
          | some name =>
            let used ← body.anyM fun b => do
              return (← Pass.nodesOf b).any fun m => m.isName && m.ident? == some name
            pure (if used && name != "" then [some (name ++ " := " ++ text)] else [])
        pure (bound ++ (← body.mapM visit))
      | _ => fail .missingPart
    | _, handlers =>
      if ← atTop n then
        let parts ← handlers.mapM fun h => match h.shape with
          | .exceptHandler _ _ body => body.mapM visit
          | _ => fail .missingPart
        pure parts.flatten
      else t.body.mapM visit
  if t.final.isEmpty then return some (← join "\n" lines)
  else
    let final ← t.final.mapM fun b => do indented (← require (← visit b)) 2
    let body ← lines.mapM fun l => do indented (← require l)
    let open_ ← indented "defer \x7b"
    let close ← indented "\x7d"
    return some ("\x7b\n" ++ open_ ++ "\n" ++ Text.lines final ++ "\n" ++ close ++ "\n" ++ Text.lines body ++ "\n\x7d")

def withItem (context : Node) (vars : Option Node) : Emit (List String) := do
  let c ← require (← visit context)
  if Text.occursIn "os.open" c || Text.occursIn "os.create" c then
    let t ← match vars with
      | some v => do pure (shown (← visit v))
      | none => temporary "file"
    return [← indented ("mut " ++ t ++ " := " ++ c), ← indented ("defer \x7b " ++ t ++ ".close() \x7d")]
  else
    let ctx ← temporary "ctx"
    let enter ← match vars with
      | some v => do pure ("mut " ++ shown (← visit v) ++ " := " ++ ctx ++ ".__enter__()")
      | none => pure (ctx ++ ".__enter__()")
    return [← indented ("mut " ++ ctx ++ " := " ++ c), ← indented ("defer \x7b " ++ ctx ++ ".__exit__(0, 0, 0) \x7d"),
      ← indented enter]

def withBlock (items body : List Node) : Emit (Option String) := do
  let heads ← items.mapM fun i => match i.shape with
    | .withItem context vars => withItem visit context vars
    | _ => fail .missingPart
  let body ← body.mapM fun b => do indented (← require (← visit b))
  return some (Text.lines (["\x7b"] ++ heads.flatten ++ body ++ ["\x7d"]))

def asyncWith (items body : List Node) : Emit (Option String) := do
  let heads ← items.mapM fun i => do
    match i.shape with
    | .withItem context (some v) =>
      let t := shown (← visit v)
      let c := shown (← visit context)
      return [t ++ " := " ++ c, "defer \x7b " ++ t ++ ".__exit__() \x7d"]
    | .withItem context none =>
      let c := shown (← visit context)
      return ["defer \x7b " ++ c ++ ".__exit__() \x7d", c ++ ".__enter__()"]
    | _ => fail .missingPart
  let first := ["// WARNING: async with converted to sync with defer"] ++ heads.flatten
  return some (← join "\n" (first.map some ++ (← body.mapM visit)))

/-! ### Assignments -/

def emptyValue (type : TypeTerm) : Emit String := do
  match type with
  | .text "int" => return "0"
  | .text "f64" => return "0.0"
  | .text "string" => return "''"
  | .text "bool" => return "false"
  | .text s => return if Text.startsWith s "[]" || Text.startsWith s "map" then s ++ "\x7b\x7d" else "none"
  | _ => fail .missingPart

def declare (n target ann : Node) (value : Option Node) : Emit (Option String) := do
  let d := dialect visit
  match value with
  | some v => if v.shape matches .lambda .. then note v.id ({ · with callableType := some ann.id })
  | none => pure ()
  let (t, type, v) ← d.declaration n target value
  let text := shown t
  if target.isAttribute || target.isSubscript then return some (text ++ " = " ++ shown v)
  else
    let mutable ← isMutable (← Scope.chainOf n) t
    let start := (if mutable then "mut " else "") ++ text ++ " := "
    let v ← match v with
      | none | some "none" => emptyValue type
      | some v =>
        let isMap ← if type.given then do pure (Text.startsWith (← typeText type) "map") else pure false
        pure (if isMap && value.any (isCallOf "OrderedDict") then type.shown ++ "\x7b\x7d" else v)
    if target.isName && (← atTop n) then return some ("const " ++ text ++ " = " ++ v)
    else
      let set ← if target.isName then do
          Scope.definedBefore (← definitionOf n target.ident?) n
        else pure false
      if set then return some (text ++ " = " ++ v)
      else
        match value.map Node.shape with
        | some (.list elts _) =>
          if elts.any Node.isStarred then
            match value with
            | some value =>
              annotate value ann
              return some (start ++ shown (← concat visit value elts))
            | none => fail .missingPart
          else
            match elts with
            | [] => return some (start ++ (if type.given then type.shown ++ "\x7b\x7d" else v))
            | e :: es =>
              let width := Text.dropStart (← typeText type) 2
              let first ← visit e
              let first := if isWidth width then some (width ++ "(" ++ shown first ++ ")") else first
              return some (start ++ "[" ++ (← join ", " (first :: (← es.mapM visit))) ++ "]")
        | some (.dict [] _) => return some (start ++ (if type.given then type.shown ++ "\x7b\x7d" else v))
        | _ => return some (start ++ v)

/-- Targets of which one takes what the others leave. -/
def unpackRest (n : Node) (elts : List Node) (value : String) : Emit (List String) := do
  let star := (elts.findIdx? Node.isStarred).getD 0
  let tmp ← temporary "unpack"
  let rest ← elts.zipIdx.mapM fun (e, i) => do
    let left := elts.length - 1 - i
    let (target, val) ← if i < star then pure (e, tmp ++ "[" ++ toString i ++ "]")
      else if i == star then do
        let stop := if left > 0 then tmp ++ ".len - " ++ toString left else ""
        match e.shape with
        | .starred v _ => pure (v, tmp ++ "[" ++ toString i ++ ".." ++ stop ++ "]")
        | _ => fail .missingPart
      else pure (e, if left == 0 then tmp ++ ".last()" else tmp ++ "[" ++ tmp ++ ".len - " ++ toString (left + 1) ++ "]")
    let (kw, op) ← match ← Scope.chain? n with
      | none => pure ("", ":=")
      | some scopes =>
        let mutable ← isMutable scopes target.ident?
        let set ← match ← Scope.findOutward scopes target.ident? with
          | none => pure false
          | some d => Scope.definedBefore (some d) target
        pure (if set then ("", "=") else (if mutable then "mut " else "", ":="))
    return kw ++ shown (← visit target) ++ " " ++ op ++ " " ++ val
  return (tmp ++ " := " ++ value) :: rest

/-- Several targets at once; those that are no names are set afterwards. -/
def unpack (n : Node) (elts : List Node) (value : String) : Emit (List String) := do
  let parts ← elts.mapM fun e => do
    if e.isAttribute || e.isSubscript then
      let tmp ← temporary "unpack"
      return (some tmp, [shown (← visit e) ++ " = " ++ tmp], false)
    else
      let d ← definitionOf n e.ident?
      let text ← visit e
      let set ← match d with
        | none => pure false
        | some d => Scope.definedBefore (some d) e
      return (text, [], set)
  let op := if parts.any (·.2.2) then "=" else ":="
  let names ← join ", " (parts.map (·.1))
  return (names ++ " " ++ op ++ " " ++ value) :: (parts.map (·.2.1)).flatten

def assignOne (n target : Node) (value : Emit (Option String)) : Emit (List String) := do
  let scopes? ← Scope.chain? n
  let kw ← match scopes? with
    | some scopes => do pure (if ← isMutable scopes target.ident? then "mut " else "")
    | none => pure "mut "
  let v ← value
  let text := shown v
  let elts := match target.shape with
    | .tuple es _ | .list es _ => some es
    | _ => none
  match elts with
  | some es => if es.any Node.isStarred then unpackRest visit n es text else unpack visit n es text
  | none =>
    if target.isName then
      if ← atTop n then return ["const " ++ shown (← visit target) ++ " = " ++ text]
      else
        let t ← visit target
        if t == v then return [shown t ++ " = " ++ text]
        else
          let set ← match scopes? with
            | none => Scope.definedBefore none n
            | some scopes =>
              match ← Scope.find (← Scope.outer scopes) target.ident? with
              | some d => Scope.definedBefore (some d) n
              | none => Scope.definedBefore (← Scope.find scopes target.ident?) n
          return [if set then shown t ++ " = " ++ text else kw ++ shown t ++ " := " ++ text]
    else
      let t := shown (← visit target)
      return [if target.isSubscript || target.isAttribute then t ++ " = " ++ text else kw ++ t ++ " := " ++ text]

def assign (n : Node) (targets : List Node) (value : Node) : Emit (Option String) := do
  let finalized (reader : String) := reader ++ ".finalize() or \x7b []string\x7b\x7d \x7d"
  let method := match value.shape with
    | .call func _ _ =>
      match func.shape with
      | .attribute v attr _ => (v.ident?.filter fun s => !s.isEmpty).map fun id => (id, attr)
      | _ => none
    | _ => none
  let pair := match targets with
    | [t] =>
      match t.shape with
      | .tuple [a, b] _ | .list [a, b] _ => some (a, b)
      | _ => none
    | _ => none
  match isCallOf "argparse.ArgumentParser" value, method, targets, pair with
  | true, _, [⟨id, l, c, .name name u⟩], _ =>
    let t := shown (← visit ⟨id, l, c, .name name u⟩)
    return some ("mut " ++ t ++ " := " ++ shown (← visit value))
  | _, some (reader, "parse_known_args"), _, some (a, b) =>
    let a := shown (← visit a)
    let b := shown (← visit b)
    return some ("mut " ++ a ++ " := " ++ (← readOptions reader) ++ "\n" ++ b ++ " := " ++ finalized reader)
  | _, some (reader, "parse_args"), [t], _ =>
    let t := shown (← visit t)
    return some ("mut " ++ t ++ " := " ++ (← readOptions reader) ++ "\n_ := " ++ finalized reader)
  | _, _, _, _ =>
    if targets.length > 1 && value.isCall then
      let first := "mut tmp := " ++ shown (← visit value)
      let rest ← targets.mapM fun t => assignOne visit n t (return some "tmp")
      return some (Text.lines (first :: rest.flatten))
    else
      let lines ← targets.mapM fun t => assignOne visit n t (visit value)
      return some (Text.lines lines.flatten)

/-! ### Classes -/

/-- What a class body assigns: names in small letters, with the constant that is assigned. -/
def enumFields (body : List Node) : List (String × Option Literal) :=
  (body.map fun b => match b.shape with
    | .assign targets value =>
      targets.filterMap fun t => match t.shape with
        | .name id _ => some (Text.lower id, match value.shape with
          | .constant v _ => some v
          | _ => none)
        | _ => none
    | _ => []).flatten

def enumClass (c : Class Node) (kind : EnumKind) : Emit (Option String) := do
  let fields := enumFields c.body
  match kind with
  | .number | .flag =>
    modify fun p => { p with numberEnums := insertNew c.name p.numberEnums }
    let lines := fields.map fun (name, v) => "    " ++ name ++ v.elim "" fun v => " = " ++ v.shown
    return some ("enum " ++ c.name ++ " \x7b\n" ++ Text.lines lines ++ "\n\x7d\n")
  | .text =>
    modify fun p => { p with textEnums := insertNew c.name p.textEnums }
    let types := fields.map fun (name, _) => "    " ++ name ++ " string"
    let values := fields.filterMap fun (name, v) => v.map fun v => name ++ ": \"" ++ v.shown ++ "\""
    return some ("struct " ++ c.name ++ "_t \x7b\n" ++ Text.lines types ++ "\n\x7d\n\nconst " ++ Text.lower c.name ++
      " = " ++ c.name ++ "_t \x7b " ++ Text.commas values ++ " \x7d")

def safeName (name : String) : String := if name == "Error" then "ResultError" else name

def classDef (n : Node) : Emit (Option String) := do
  let d := dialect visit
  let (c, declarations) ← Members.declare d n [] true
  match enumKind? c.bases with
  | some kind => enumClass c kind
  | none =>
    let fields ← declarations.mapM fun (name, t) => do
      let name := if Text.startsWith name "self." then Text.dropStart name 5 else name
      match t with
      | .many _ => fail .wrongSort
      | .absent | .text "" => return name ++ " Any"
      | t => return name ++ " " ++ t.shown
    let fields := if declarations.isEmpty then [] else "pub mut:" :: fields
    Members.ownMethods c (safeName c.name)
    let body ← d.lines (c.body.filter isNested)
    return some ("pub struct " ++ safeName c.name ++ " \x7b\n" ++ Text.lines fields ++ "\n\x7d\n\n" ++ body)

/-! ### Programs -/

/-- Settles the conversions that were marked: what stands between the mark and the next bracket on the line is
converted. -/
def settleCasts : Nat → List Char → List Char
  | 0, cs => cs
  | _, [] => []
  | k + 1, c :: cs =>
    match Text.afterPrefix? "CAST_INT(".toList (c :: cs) with
    | none => c :: settleCasts k cs
    | some rest =>
      match rest.span fun c => c != ')' && c != '\n' with
      | (what, ')' :: rest) => "(".toList ++ what ++ " as int)".toList ++ settleCasts k rest
      | _ => c :: settleCasts k cs

/-- Whether a text has a word that stands alone. -/
def hasWord (word : List Char) : Option Char → List Char → Bool
  | _, [] => false
  | before, c :: cs =>
    let alone := match Text.afterPrefix? word (c :: cs) with
      | some rest => !(before.any Text.isNameRest) && !(rest.head?.any Text.isNameRest)
      | none => false
    alone || hasWord word (some c) cs

def program (n : Node) (body : List Node) : Emit (Option String) := do
  let file := (← get).file
  let name := file.map Path.stem
  let parent := file.map Path.parentName
  modify ({ · with sharesAny := Prepared.sharesAny name parent })
  match ← Prepared.text? name parent with
  | some text => return some text
  | none =>
    let code ← require (← (dialect visit).program n body)
    let options ← optionRecord
    let code := if options.isEmpty then code else options ++ "\n\n" ++ code
    let code ← Prepared.forwardMain code
    let chars := code.toList
    let code := String.ofList (settleCasts chars.length chars)
    modify ({ · with mentionsAny := hasWord "Any".toList none code.toList })
    return some code

def step (n : Node) : Emit (Option String) := do
  let d := dialect visit
  match n.shape with
  | .pass => return some ""
  | .module body => program visit n body
  | .name id _ => return nameText id
  | .constant v _ =>
    match v with
    | .nothing | .ellipsis => return some "none"
    | v => d.constant n v
  | .joinedStr values => joined visit values
  | .functionDef f => functionDef visit n f
  | .asyncFunctionDef f =>
    let _ ← Scope.chainOf n
    functionDef visit n f
  | .ret (some v) => return some ("return " ++ (← d.say v))
  | .ret none => return some "return"
  | .lambda args body => lambda visit n args body
  | .attribute value attr _ => member visit value attr
  | .call func args kwds => call visit n func args kwds
  | .exprStmt value =>
    let declares := match value.shape with
      | .call func _ _ => (func.shape matches .attribute _ "add_argument" _)
      | _ => false
    if declares then visit value
    else if value.isName && (← atTop n) then return some ""
    else d.expression value
  | .starred value _ => return some ("..." ++ (← d.say value))
  | .forLoop l => forLoop visit n l
  | .asyncFor l =>
    return some ("// WARNING: async for converted to sync for\n" ++ (← require (← forLoop visit n l)))
  | .whileLoop test body _ => whileLoop visit n test body
  | .boolOp op values => logic visit op values
  | .compare _ (op :: _) (right :: _) =>
    match op, right.isList || right.isTuple with
    | .same, true => return some "false"
    | .notSame, true => return some "true"
    | _, _ => d.step n
  | .cond test body orelse => branch visit n test body orelse
  | .binOp left op right => binary visit left op right
  | .classDef _ => classDef visit n
  | .list es _ | .tuple es _ | .set es => list visit n es
  | .dict keys values =>
    return some ("\x7b" ++ " ".intercalate (← d.entries keys values fun k v => k ++ ": " ++ v) ++ "\x7d")
  | .subscript value index _ => subscript visit n value index
  | .attempt t => attemptBlock visit n t
  | .exceptHandler type name body =>
    let head := match type with
      | some t => "'" ++ shown t.ident? ++ "' \x7b"
      | none => "else \x7b"
    let bound := match name with
      | some "" | none => []
      | some name => [name ++ " := vexc.get_curr_exc()"]
    return some (← join "\n" (([head] ++ bound).map some ++ (← d.visitAll body) ++ [some "\x7d"]))
  | .assert test _ => return some ("assert " ++ (← d.say test))
  | .annAssign target ann value _ => declare visit n target ann value
  | .assign targets value => assign visit n targets value
  | .augAssign target op value =>
    let t ← d.say target
    return some (t ++ " " ++ d.binarySymbol op ++ "= " ++ (← d.say value))
  | .delete targets =>
    let texts ← targets.mapM fun t => do
      match t.shape with
      | .subscript v i _ =>
        let v ← d.say v
        return v ++ ".delete(" ++ (← d.say i) ++ ")"
      | _ => return "/* del " ++ (← d.say t) ++ " */"
    return some (Text.lines texts)
  | .raise none _ => return some "panic('Exception')"
  | .raise (some e) _ =>
    match e.shape with
    | .call _ (a :: _) _ => return some ("panic(" ++ (← d.say a) ++ ")")
    | .call func [] _ => return some ("panic('" ++ shown func.ident? ++ "')")
    | _ => return some ("panic('" ++ shown e.ident? ++ "')")
  | .withBlock items body => withBlock visit items body
  | .asyncWith items body => asyncWith visit items body
  | .await _ => refuse "asyncio is not supported." n
  | .yield (some v) => return some ("ch <- " ++ (← d.say v))
  | .yield none => return some "ch <- 0"
  | .yieldFrom value =>
    let v ← d.say value
    let g ← temporary "gen"
    return some (Text.lines [g ++ " := " ++ v, "// yield from " ++ g, "for \x7b",
      "    val := <-" ++ g ++ " or \x7b break \x7d", "    ch <- val", "\x7d"])
  | .dictComp key value gens => dictComp visit key value gens
  | .generatorExp elt gens | .listComp elt gens | .setComp elt gens => comprehension visit n elt gens
  | .global names => return some ("// global " ++ Text.commas names ++ "  // V does not support global keyword")
  | .ifExp test body orelse => d.choiceOfBlocks test body orelse
  | .namedExpr target value =>
    let t ← d.say target
    return some ("(" ++ t ++ " := " ++ (← d.say value) ++ ")")
  | _ => d.step n

def emit : Visit := Target.emitter step

def showAny : List String :=
  ["", "fn any_to_string(value Any) string \x7b", "\treturn match value \x7b", "\t\tstring \x7b value \x7d",
   "\t\tbool, int, i64, f64 \x7b value.str() \x7d", "\t\t[]u8 \x7b value.bytestr() \x7d",
   "\t\tvoidptr \x7b ptr_str(value) \x7d", "\t\x7d", "\x7d", ""]

def anyTypes : List String :=
  ["", "type AnyFn = fn (Any) Any", "type Any = bool | int | i64 | f64 | string | []u8 | voidptr",
   "type List = []Any"]

def usings : Emit String := do
  let page ← get
  let imports := (sorted page.usings).map ("import " ++ ·)
  let any := (page.mentionsAny || page.showsAny) && !page.sharesAny
  return Text.lines (["@[translated]", "module main"] ++ imports ++ (if any then anyTypes else []) ++
    (if page.showsAny && !page.sharesAny then showAny else []))

def target : Target where
  language := .v
  lowerings :=
    [("VWalrusRewriter", Hoisting.lift false), ("VNoneCompareRewriter", Numbers.zeroForNothing),
     ("VDictRewriter", valuesByKeys), ("VComprehensionRewriter", chainComprehensions)]
  analyses _ := [infer]
  start o := { indentUnit := (o.indent.getD 2).toNat }
  install := install
  emit := emit
  usings := usings

end Polyglot.V
