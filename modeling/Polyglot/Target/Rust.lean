import Polyglot.Emit.Target

/-!
# Rust

Values of container types are borrowed, and a call that can fail is followed by a question mark. A function of
an extension module returns its value wrapped.
-/
namespace Polyglot.Rust

open Session Emit Dialect Plugins

def types : List (String × String) :=
  [("int", "i32"), ("float", "f64"), ("bytes", "&[u8]"), ("str", "&str"), ("bool", "bool")] ++
    fixedWidths ["i8", "i16", "i32", "i64", "u8", "u16", "u32", "u64"] ++
    [("io.RawIOBase", "std::fs::File")]

def containers : List (String × String) :=
  [("List", "Vec"), ("Dict", "HashMap"), ("Set", "HashSet"), ("Optional", "Option"), ("Result", "Result")]

def extensionTypes : List (String × String) :=
  [("str", "&PyUnicode"), ("bytes", "&PyBytes"), ("complex", "&PyComplex"), ("list", "&PyList"),
   ("dict", "&PyDict"), ("tuple", "&PyTuple"), ("set", "&PySet"), ("frozenset", "&PyFrozenSet"),
   ("bytearray", "&PyByteArray"), ("slice", "&PySlice"), ("type", "&PyType"), ("module", "&PyModule"),
   ("datetime.datetime", "&PyDateTime"), ("datetime.date", "&PyDate"), ("datetime.time", "&PyTime"),
   ("datetime.tzinfo", "&PyTzInfo"), ("datetime.timedelta", "&PyDelta"), ("object", "&PyAny")]

def ranks : List (String × Nat) :=
  ["bool", "i8", "u8", "i16", "u16", "i32", "u32", "i64", "u64", "f32", "f64"].zipIdx

def keywords : List String :=
  ["struct", "type", "match", "impl", "const", "enum", "extern", "fn", "loop", "move", "mut", "pub", "ref",
   "trait", "where", "use", "unsafe"]

def safeName (id : String) : String := if keywords.contains id then id ++ "_" else id

/-- A borrowed text that the program itself holds lives for ever. -/
def nameType (m : TypeMaps) (name : String) (l : Lifetime) : Analysis TypeTerm := do
  let t := TypeStyle.knownName m name
  if l == .static then
    match t.toList with
    | [] => fail .outOfRange
    | c :: rest => return .text (if c == '&' then "&'static " ++ String.ofList rest else t)
  else return .text t

def style : TypeStyle := { TypeStyle.common with fallback := .text "_", nameType }

/-! ### Types in an extension module -/

/-- The type of a value that an extension module receives or, wrapped, returns. -/
def extensionName (returned : Bool) (name : String) : String :=
  if name == "_" then "&PyAny"
  else
    let key := Known.resolve [] name
    match key.bind fun k => extensionTypes.lookup k with
    | some t => if returned && key == some "str" then "PyResult<String>" else t
    | none =>
      match key.bind fun k => types.lookup k with
      | some t => t
      | none => if returned && !(Inference.widthNames.contains name) then "PyResult<" ++ name ++ ">" else name

def extensionType (returned : Bool) (t : TypeTerm) : Emit TypeTerm := do
  match t with
  | .text s => return .text (extensionName returned s)
  | .absent => return if returned then .text "PyResult<()>" else .absent
  | .many _ => if returned then fail .wrongSort else return t
  | .value _ => return if returned then .text ("PyResult<" ++ t.shown ++ ">") else t

def native : NativeTypes := .plain types ranks

/-! ### Inference -/

/-- What every function is taken to return until a return statement is seen. -/
def functionRule (extension : Bool) : Inference.Rule := fun self n => do
  note n.id ({ · with noReturn := some true, wrapsResult := extension })
  Pass.below self n

/-- A container that is not changed is returned by reference. -/
def returnRule : Inference.Rule := fun self n => do
  Pass.below self n
  let scopes ← Scope.chainOf n
  match ← Scope.functionOf scopes with
  | none => pure ()
  | some f =>
    note f.id ({ · with noReturn := some false })
    match n.shape, f.shape with
    | .ret (some v), .functionDef g =>
      match g.returns with
      | none => pure ()
      | some r =>
        let v ← current v
        if ← Inference.isReference v then
          let changed ← Scope.isMutable v.ident? scopes
          note r.id ({ · with needsReference := some !changed })
          note f.id ({ · with returnNeedsReference := some !changed })
    | _, _ => pure ()

def infer (extension : Bool) (n : Node) : Analysis Unit := do
  let native := if extension then { native with operand := fun t => t.map (extensionName false) } else native
  let rules := { native.rules with functionDef := functionRule extension, ret := returnRule }
  let _ ← Inference.infer rules n

def isBorrowed (n : Node) : Analysis Bool := do
  if ← Inference.isReference n then
    match n.shape with
    | .call func _ _ =>
      match ← Scope.find (← Scope.chainOf n) func.ident? with
      | some d => return (← factsOf d.id).returnNeedsReference.getD true
      | none => return true
    | _ => return true
  else return false

/-! ### Lowering -/

/-- The items of a container are borrowed, so the variable of a loop over it is followed to its value. -/
def followItems : Lowering := fun self n => do
  match n.shape with
  | .forLoop l =>
    match l.iter.shape with
    | .name id _ =>
      match ← Scope.find (← Scope.chainOf n) (some id) with
      | some d => if ← Inference.isReference d then note l.target.id ({ · with needsDereference := true })
      | none => pure ()
    | _ => pure ()
    return [n]
  | _ => Lowering.through self n

/-- What is compared with nothing is an optional value. -/
def wrapOptional : Lowering := fun self n => do
  match n.shape with
  | .compare left ops (c :: rest) =>
    let right ← Lowering.one self c
    if right.shape matches .constant .nothing _ then
      let func ← fresh (.name "Some" .load)
      let wrapped ← freshAt (some (← lineOf left)) none (.call func [left] [])
      return [← edit n (.compare wrapped ops (right :: rest))]
    else return [← edit n (.compare left ops (right :: rest))]
  | .compare .. => fail .outOfRange
  | _ => Lowering.through self n

/-- Texts are joined by a method of the list, not of the separator. -/
def joinByList : Lowering := fun self n => do
  let n ← Lowering.descend self n
  match n.shape with
  | .call func args _ =>
    match func.shape with
    | .attribute sep "join" _ =>
      match sep.shape, args with
      | .constant (.str _) _, list :: _ =>
        let f ← fresh (.attribute list "join" .word)
        let c ← freshAt (some (← lineOf n)) (some (← colOf n)) (.call f [sep] [])
        let scopes ← Scope.chainOf n
        note c.id ({ · with scopes := some scopes })
        note f.id ({ · with scopes := some scopes })
        return [← place c]
      | .constant (.str _) _, [] => fail .outOfRange
      | _, _ => return [n]
    | _ => return [n]
  | _ => return [n]

/-! ### Known functions -/

def allow (what : String) : Emit Unit := modify fun p => { p with allows := insertNew what p.allows }

def feature (what : String) : Emit Unit := modify fun p => { p with features := insertNew what p.features }

def fallible (n : Node) : Emit Unit := note n.id ({ · with resultType := some true })

def openOptions (mode : String) : Emit String := do
  let binary := Text.occursIn "b" mode
  let parts ← mode.toList.mapM fun c => do
    if c == 'w' then
      if !binary then using_ "pylib::FileWriteString"
      return ".write(true)"
    else if c == 'r' then
      if !binary then using_ "pylib::FileReadString"
      return ".read(true)"
    else if c == 'a' then return ".append(true)"
    else if c == '+' then return ".read(true).write(true)"
    else return ""
  return "OpenOptions::new()" ++ String.join parts

def openFile : Plugin := fun n vargs => do
  using_ "std::fs::File"
  match vargs with
  | _ :: mode :: _ =>
    using_ "std::fs::OpenOptions"
    let opts ← openOptions (← require mode)
    fallible n
    return some (opts ++ ".open(" ++ (← argAt vargs 0) ++ ")")
  | _ =>
    fallible n
    return some ("File::open(" ++ (← argAt vargs 0) ++ ")")

def readFile : Plugin := fun _ vargs => do
  match vargs with
  | [] => return some "f.read_string()"
  | [_] =>
    using_ "pylib::FileReadBytes"
    return some ("std::str::from_utf8(&f.read_bytes(" ++ (← argAt vargs 0) ++ ")?)")
  | _ => throw (.refuse "read() with more than one argument")

def writeFile : Plugin := fun _ vargs => do
  match vargs with
  | [_] => return some ("f.write_string(" ++ (← argAt vargs 0) ++ ")")
  | [_, _] =>
    using_ "pylib::FileWriteBytes"
    return some ("f.write_bytes(" ++ (← argAt vargs 0) ++ ")")
  | _ => throw (.refuse "write() with more than one argument")

def temporaryFile : Plugin := fun n _ => do
  let t ← typeName "tempfile._TemporaryFileWrapper"
  annotate n t
  fallible n
  return some "NamedTempFile::new()"

def range : Plugin := fun n vargs => do
  let (start, stop, step) ← rangeOf n vargs
  return some ("(" ++ start ++ ".." ++ stop ++ ")" ++ step.elim "" fun s => ".step_by(" ++ s ++ ")")

def printLine : Plugin := fun n vargs => do
  let places := " ".intercalate ((callArgs n).map fun _ => "\x7b\x7d")
  return some ("println!(\"" ++ places ++ "\"," ++ (← join ", " vargs) ++ ");")

def leave : Plugin := fun _ vargs => do
  allow "unreachable_code"
  return some ("std::process::exit(" ++ (← argAt vargs 0) ++ ")")

def minMax (name : String) : Plugin := fun n vargs => do
  using_ "std::cmp"
  match callArgs n with
  | [] => fail .outOfRange
  | a :: _ =>
    let _ ← style.ofHint a
    if (← factsOf a.id).container.isSome then
      fallible n
      return some ((← argAt vargs 0) ++ ".iter()." ++ name ++ "()")
    else if ((← hintOf a).bind Node.ident?) == some "float" then
      using_ "float-ord::FloatOrd"
      let args := vargs.map fun v => "FloatOrd(" ++ shown v ++ ")"
      return some ("cmp::" ++ name ++ "(" ++ Text.commas args ++ ").0")
    else return some ("cmp::" ++ name ++ "(" ++ (← join ", " vargs) ++ ")")

def cast (type : String) : Plugin := fun _ vargs => do
  if vargs.isEmpty && type == "i32" then return some "0"
  else if vargs.isEmpty && type == "f64" then return some "0.0"
  else return some ((← argAt vargs 0) ++ " as " ++ type)

def plugins : Plugins where
  byName :=
    [("max", minMax "max"), ("min", minMax "min"), ("range", range), ("xrange", range), ("print", printLine)]
  small :=
    [("str", optionalCall "&" ".to_string()" "\"\""), ("len", unaryCall "" ".len() as i32"),
     ("enumerate", unaryCall "" ".iter().enumerate()"), ("sum", unaryCall "" ".iter().sum()"),
     ("int", cast "i32"), ("bool", optionalCall "(" " != 0)" "false"), ("float", cast "f64"),
     ("floor", unaryCall "" ".floor() as i32"), ("reversed", unaryCall "" ".iter().rev()"),
     ("map", fun _ vargs => do
        return some ((← argAt vargs 1) ++ ".iter().map(" ++ (← argAt vargs 0) ++ ")")),
     ("filter", fun _ vargs => do
        return some ((← argAt vargs 1) ++ ".into_iter().filter(" ++ (← argAt vargs 0) ++ ")")),
     ("list", unaryCall "" ".collect::<Vec<_>>()"), ("asyncio.run", unaryCall "block_on(" ")")] ++
    (["i8", "i16", "i32", "i64", "u8", "u16", "u32", "u64"].map fun t => (t, cast t))
  smallUsings := [("asyncio.run", "futures::executor::block_on")]
  byFunction :=
    [("open", openFile, true), ("tempfile.NamedTemporaryFile", temporaryFile, true),
     ("io.TextIOWrapper.read", fun _ _ => return none, true),
     ("math.pow", fun _ vargs => do return some ((← argAt vargs 0) ++ ".powf(" ++ (← argAt vargs 1) ++ ")"), false),
     ("math.sin", unaryCall "" ".sin()", false), ("math.cos", unaryCall "" ".cos()", false),
     ("math.tan", unaryCall "" ".tan()", false), ("math.asin", unaryCall "" ".asin()", false),
     ("math.acos", unaryCall "" ".acos()", false), ("math.atan", unaryCall "" ".atan()", false),
     ("time.time", fun _ _ => return some "pylib::time()", false),
     ("os.unlink", unaryCall "std::fs::remove_file(" ")", true), ("sys.exit", leave, true)]
  byLeaf :=
    [("parse_args", fun _ _ => return some "::from_args()", false), ("f.read", readFile, true),
     ("f.write", writeFile, true), ("f.close", fun _ _ => return some "drop(f)", false),
     ("Error", unaryCall "anyhow::bail!(" ")", false)]
  functionUsings := [("time.time", "pylib")]

/-- Known functions go by dotted names, calls by paths. -/
def lookup (name : String) : Emit (Option String) := Plugins.lookup (Text.replaceAll name "::" ".")

def split (name : String) : String × String :=
  match Text.cutLast? name "::" with
  | some (a, b) => (a, b)
  | none => ("", name)

/-! ### Rules -/

def ignoredModules : List String := ["argparse_dataclass"]

def paths : List (String × String) :=
  [("tempfile.NamedTemporaryFile", "tempfile::NamedTempFile"), ("pyanyhow.Result", "anyhow::Result"),
   ("pyanyhow.Error", "anyhow::Error")]

def importOne (name : String) : Emit (Option String) := do
  if !(ignoredModules.contains name) then using_ name
  return some ""

def importFrom (source : String) (names : List String) (level : Nat) : Emit (Option String) := do
  if ignoredModules.contains source then return some ""
  else
    if level > 0 then modify fun p => { p with neighbours := insertNew source p.neighbours }
    else using_ source
    let known := match names with
      | [name] => paths.lookup (source ++ "." ++ name)
      | _ => none
    match known with
    | some path => return some ("use " ++ path ++ ";")
    | none => return some ("use " ++ Text.replaceAll source "." "::" ++ "::\x7b" ++ Text.commas names ++ "\x7d;")

def param (n : Node) : Emit (TypeTerm × String) := do
  match n.shape with
  | .arg "self" _ => return (.absent, "self")
  | .arg id none => return (.text "T", id)
  | .arg id (some _) =>
    let type ← if (← get).extension then do
        extensionType false (← TypeStyle.genericHint style.fallback n)
      else do
        match ← style.ofHint n with
        | .text s => pure (.text (shown (← native.rename (some s))))
        | t => pure t
    let mark := if ← Scope.isMutable (some id) (← Scope.chainOf n) then "mut " else ""
    if (← factsOf n.id).container.isSome then return (.text ("&" ++ mark ++ type.shown), id)
    else return (type, id)
  | _ => fail .missingPart

def quotedByte (b : UInt8) : String :=
  let n := b.toNat
  if n == 0x22 then "\\\""
  else if n == 0x5c then "\\\\"
  else if 0x20 ≤ n && n ≤ 0x7e then (Char.ofNat n).toString
  else "\\x" ++ (if n < 16 then "0" else "") ++ Text.hex n

def declarator (n : Node) (target : Option String) : Emit String := do
  let changed ← Scope.isMutable target (← Scope.chainOf n)
  if ← outside then return if changed then "pub static" else "pub const"
  else return if changed then "let mut" else "let"
where
  outside : Emit Bool := do
    if ← Scope.isGlobal n then return true else return (← factsOf n.id).classAssignment

def needsCast (left right : Node) : Emit Bool := do
  if !(← hasHint left) then return false
  else if !(← hasHint right) then return false
  else
    let l ← style.ofHint left
    let _ ← native.typeOf right
    let r ← style.ofHint right
    return l != r && l != style.fallback

/-- The value of an assignment, cast to the type of its target if that differs. -/
def castValue (target value : Node) (text : String) (needed : Bool) : Emit String := do
  if needed then
    let type ← style.ofHint target
    if (← factsOf value.id).targetType.isNone then fail .missingPart
    else return text ++ " as " ++ type.shown
  else return text

def assignOne (visit : Visit) (n target : Node) : Emit (Option String) := do
  match n.shape with
  | .assign _ value =>
    let kw ← declarator n target.ident?
    let outer := Text.startsWith kw "pub "
    let scopes ← Scope.chainOf n
    if let some id ← sharedTarget? visit scopes target then
      return some (shown id ++ " = " ++ shown (← visit value) ++ ";")
    else if target.isSubscript || target.isAttribute then
      let t ← visit target
      return some (shown t ++ " = " ++ shown (← visit value) ++ ";")
    else
      let definition ← Scope.findOutward scopes target.ident?
      if ← Scope.isSetBefore target definition n then
        let cast ← needsCast target value
        let t ← visit target
        let v := shown (← visit value)
        return some (shown t ++ " = " ++ (← castValue target value v cast) ++ ";")
      else
        match value.shape, outer with
        | .list es _, true =>
          let t ← visit target
          let v ← visit value
          let _ ← style.ofHint value
          let v ← present v
          let v := if Text.startsWith v "vec!" then Text.replaceAll v "vec!" "&" else v
          let element := match (← factsOf value.id).container with
            | some (_, e) => e
            | none => style.fallback
          return some (kw ++ " " ++ shown t ++ ": &[" ++ element.shown ++ "; " ++ toString es.length ++ "] = " ++
            v ++ ";")
        | .set _, true =>
          let t ← visit target
          let v ← visit value
          let type ← style.ofHint value
          using_ "lazy_static::lazy_static"
          let type ← match type with
            | .text s => pure (Text.replaceAll s "str" "'static str")
            | .many _ => pure type.shown
            | _ => fail .wrongSort
          return some ("lazy_static! \x7b pub static ref " ++ shown t ++ ": " ++ type ++ " = " ++ shown v ++ "; \x7d")
        | .dict .., true =>
          let t ← visit target
          let v ← visit value
          let type ← style.ofHint value
          using_ "lazy_static::lazy_static"
          let static (x : TypeTerm) : String := if x.isText "&str" then "&'static str" else x.shown
          let type ← match (← factsOf value.id).container with
            | none => pure type.shown
            | some (_, .many [k, v]) => pure (static k ++ ", " ++ static v)
            | some (_, .text s) =>
              match s.toList with
              | [a, b] => pure (a.toString ++ ", " ++ b.toString)
              | _ => fail .badValue
            | some (_, .many _) => fail .badValue
            | some _ => fail .wrongSort
          return some ("lazy_static! \x7b pub static ref " ++ shown t ++ ": HashMap<" ++ type ++ "> = " ++ shown v ++
            "; \x7d")
        | _, _ =>
          let type ← style.ofHint target
          let cast ← needsCast target value
          let t ← visit target
          let v := shown (← visit value)
          let v := if cast then v ++ " as " ++ type.shown else v
          let (type, v) ← if (← factsOf value.id).container.isSome then do
              let mark := if ← Scope.isMutable t scopes then "mut " else ""
              pure (.text ("&" ++ mark ++ type.shown), "&" ++ mark ++ v)
            else pure (type, v)
          let typed := if type == style.fallback then "" else ": " ++ type.shown
          return some (kw ++ " " ++ shown t ++ typed ++ " = " ++ v ++ ";")
  | _ => fail .missingPart

def install : Analysis Unit := Target.installMaps types containers

def dialect (visit : Visit) : Dialect where
  visit := visit
  style := style
  nothing := "None"
  bytes _ bs := return some ("b\"" ++ String.join (bs.map quotedByte) ++ "\"")
  assignOne := assignOne visit
  importOne := importOne
  importFrom := importFrom
  param := param
  start := {}
  install := install

variable (visit : Visit)

def functionDef (n : Node) (f : Function Node) (async : String) : Emit (Option String) := do
  let d := dialect visit
  let body ← d.lines f.body
  let (ts, names) ← d.parameters f.args
  let ps := ts.zip names
  let own := names.head? == some "self"
  let ps := if own then ps.drop 1 else ps
  let facts ← factsOf n.id
  if facts.isEntry then using_ "anyhow::Result"
  let (types, generics) := paramTypes (ps.map (·.1))
  let args := (types.zip ps).map fun (t, (_, name)) => name ++ ": " ++ t
  let args := (if own then ["&self"] else []) ++ args
  let entry := if facts.isEntry then "-> Result<()>" else ""
  let (result, generics) ← match f.returns with
    | some r =>
      let type ← style.ofReturns n
      let type := if (← factsOf r.id).needsReference.getD false then .text ("&" ++ type.shown) else type
      let type ← if facts.wrapsResult then do
          let plain ← match facts.noReturn with
            | some true => pure .absent
            | some false => TypeStyle.genericOf style.fallback (some r)
            | none => fail .missingPart
          extensionType true plain
        else pure type
      pure (if type.isText "_" then entry else "-> " ++ type.shown, generics)
    | none =>
      if ← Tracing.isVoid n then pure (entry, generics) else pure ("-> RT", generics ++ ["RT"])
  let template := if generics.isEmpty then "" else "<" ++ Text.commas generics ++ ">"
  let mark := if (← get).extension then "#[pyfunction]\n" else ""
  let success := if facts.isEntry then "Ok(())" else ""
  return some (mark ++ "pub " ++ async ++ "fn " ++ f.name ++ template ++ "(" ++ Text.commas args ++ ") " ++
    result ++ " \x7b\n" ++ body ++ "\n " ++ success ++ "\x7d\n")

def returnValue (n : Node) (value : Option Node) : Emit (Option String) := do
  let f ← Scope.functionOf (← Scope.chainOf n)
  let wraps ← match f with
    | some f => pure (← factsOf f.id).wrapsResult
    | none => pure false
  match value with
  | none => return some (if wraps then "return Ok(())" else "return;")
  | some v =>
    let text ← visit v
    match f with
    | none => return some ("return " ++ shown text ++ ";")
    | some f =>
      let text ← if wraps then do
          let s ← present text
          pure ("Ok(" ++ (if Text.startsWith s "&" then Text.dropStart s 1 else s) ++ ")")
        else pure (shown text)
      let result ← style.ofReturns f
      let type ← native.typeOf v
      let needs ← match f.shape with
        | .functionDef g =>
          match g.returns with
          | some r => pure ((← factsOf r.id).needsReference.getD true)
          | none => pure true
        | _ => pure true
      let text := if !needs && (← Inference.isReference v) then text ++ ".to_vec()" else text
      match type with
      | none => return some ("return " ++ text ++ ";")
      | some t =>
        return some (if result.isText t then "return " ++ text ++ ";"
          else "return " ++ text ++ " as " ++ result.shown ++ ";")

def member (n value : Node) (attr : String) : Emit (Option String) := do
  let v ← visit value
  let name := safeName attr
  if v == some "sys" && name == "argv" then
    using_ "std::env"
    return some "env::args().map(|s| &*Box::leak(s.into_boxed_str())).collect()"
  else
    let name ← if (← Tracing.isList value) && attr == "append" then pure "push" else pure name
    let v := v.getD ""
    if ← Scope.isClassOrModule (some v) (← Scope.chainOf n) then return some (v ++ "::" ++ name)
    else if v ++ "." ++ name == "temp_file.name" then return some (v ++ ".path()")
    else return some (v ++ "." ++ name)

def passed (func : Node) (vargs : List (Option String)) (args : List Node) : Emit (List (Option String)) := do
  match func.shape with
  | .functionDef f | .asyncFunctionDef f =>
    match f.args.shape with
    | .parameters p =>
      ((vargs.zip p.args).zip args).mapM fun ((v, p), a) => do
        let wanted ← Inference.isReference p
        let given ← Inference.isReference a
        return if wanted && !given then some ("&" ++ shown v) else v
    | _ => return vargs
  | _ => return vargs

def call (n func : Node) (args kwds : List Node) : Emit (Option String) := do
  let name ← visit func
  let d ← Scope.find (← Scope.chainOf n) name
  match d.filter Node.isClass with
  | some cls => recordOf visit n name cls args kwds safeName
  | none =>
    let vargs ← (args ++ keywordValues kwds).mapM visit
    let text ← plugins.dispatch n name vargs lookup split
    let fails := (← factsOf n.id).resultType.getD false
    let funcFails := (← factsOf func.id).resultType.getD false
    match text with
    | some s =>
      let fails := fails && !(Text.startsWith s "std::process::exit(")
      return some (s ++ (if fails || funcFails then "?" else ""))
    | none =>
      let vargs ← match d with
        | some d => passed d vargs args
        | none => pure vargs
      return some (shown name ++ "(" ++ (← join ", " vargs) ++ ")" ++ (if fails || funcFails then "?" else ""))

def comparison (left : Node) (op : CmpOp) (right : Node) : Emit (Option String) := do
  let l ← visit left
  let r ← visit right
  let r ← match ← hint? right with
    | none => pure r
    | some t =>
      let _ ← TypeStyle.genericHint style.fallback right
      let c ← match t with
        | some t => pure (← factsOf t.id).genericContainer
        | none => pure none
      match c with
      | some (.text "Dict", _) => pure (some ((← require r) ++ ".keys()"))
      | _ => pure r
  let r ← present r
  let l := "&" ++ shown l
  let keyed := Text.endsWith r ".keys()"
  let valued := Text.endsWith r ".values()"
  let test := if keyed then Text.dropLast r 7 ++ ".contains_key(" else r ++ ".contains("
  match op with
  | .isIn => return some (if valued && !keyed then r ++ ".any(|x| x == " ++ l ++ ")" else test ++ l ++ ")")
  | .notIn => return some (if valued && !keyed then r ++ ".all(|x| x != " ++ l ++ ")" else "!" ++ test ++ l ++ ")")
  | _ =>
    let lt ← style.ofHint left
    let rt ← style.ofHint right
    let l := shown (← visit left)
    let r := shown (← visit right)
    let r := if !(← isBorrowed left) && (← isBorrowed right) then "*" ++ r else r
    let l := if (← isBorrowed left) && !(← isBorrowed right) then "*" ++ l else l
    let lr ← native.termRank lt
    let rr ← native.termRank rt
    let r' := if lr > rr then "(" ++ r ++ " as " ++ lt.shown ++ ")" else r
    let l' := if rr > lr then "(" ++ l ++ " as " ++ rt.shown ++ ")" else l
    return some (l' ++ " " ++ (dialect visit).comparisonSymbol op ++ " " ++ r')

def branch (n test : Node) (body orelse : List Node) : Emit (Option String) := do
  let _ ← sharedVars n
  let text ← require (← (dialect visit).branch n test body orelse false)
  let always := match test.shape with
    | .constant v _ => v.truthy && orelse.isEmpty
    | _ => false
  return some (if always then text ++ ";" else text)

/-- An operator; both operands are cast to the type of the result if that is wider. -/
def binary (n left : Node) (op : BinOp) (right : Node) : Emit (Option String) := do
  match left.shape, op with
  | .list es _, .mult =>
    if isWhole right then
      match es with
      | e :: _ =>
        let e := shown (← visit e)
        return some ("vec![" ++ e ++ ";" ++ shown (← visit right) ++ "]")
      | [] => fail .outOfRange
    else plain
  | _, .pow =>
    let l := shown (← visit left)
    return some ("pow(" ++ l ++ ", " ++ shown (← visit right) ++ ")")
  | _, _ => plain
where
  typeOfRank (r : Nat) : String := ((ranks.find? fun (_, k) => k + 1 == r).map (·.1)).getD ""
  plain : Emit (Option String) := do
    let l := shown (← visit left)
    let r := shown (← visit right)
    let lt ← style.ofHint left
    let rt ← style.ofHint right
    let type ← style.ofHint n
    let lr ← native.termRank lt
    let rr ← native.termRank rt
    let typed := type != style.fallback
    let wanted ← if typed then native.termRank type else pure 0
    let r := if typed && wanted > rr then "(" ++ r ++ " as " ++ typeOfRank wanted ++ ")" else r
    let l := if typed && wanted > lr then "(" ++ l ++ " as " ++ typeOfRank wanted ++ ")" else l
    let symbol := (dialect visit).binarySymbol op
    if op == .mult || op == .div then return some ("(" ++ l ++ symbol ++ r ++ ")")
    else return some ("(" ++ l ++ " " ++ symbol ++ " " ++ r ++ ")")

def sealedClass (n : Node) (c : Class Node) : Emit (Option String) := do
  let facts ← factsOf n.id
  let cls := Names.camelCase c.name
  let parts ← (facts.classAssignments.getD []).mapM fun (member, _) => do
    let id ← match member with
      | .target id => pure (← nodeOf id).ident?
      | .named _ => pure none
    match id with
    | none => fail .wrongSort
    | some id =>
      let variant := cls ++ "::" ++ Names.camelCase id
      let lower := Text.lower id
      let type := (facts.declaredDefaults.getD []).find? fun (k, _, _) => k == id
      let (declared, typeText) := match type with
        | none => (id ++ ",", "None")
        | some (_, t, _) => (id ++ "(" ++ t.shown ++ "),", t.shown)
      let tag := "\nfn is_" ++ lower ++ "(&self) -> bool \x7b\n    matches!(*self, " ++ variant ++ "(_))\n\x7d"
      let accessor := "\nfn " ++ lower ++ "(&self) -> Option<&" ++ typeText ++ ">\x7b\n    if let " ++ variant ++
        "(val) = self \x7b\n        Some(val)\n    \x7d else \x7b\n        None\n    \x7d\n\x7d"
      return (declared, tag, accessor)
  let body := Text.lines (parts.map (·.1))
  let methods := Text.lines (parts.map (·.2.2)) ++ "\n" ++ Text.lines (parts.map (·.2.1))
  return some ("enum " ++ cls ++ " \x7b " ++ body ++ " \x7d\n\n impl " ++ cls ++ " \x7b " ++ methods ++ " \x7d\n\n")

/-- The options of a command; a member without a type makes it a plain class. -/
def optionsClass (n : Node) (c : Class Node) : Emit (Option String) := do
  let members := (← factsOf n.id).declaredDefaults.getD []
  let rec go : List (String × TypeTerm × Option NodeId) → Emit (Option (List String))
    | [] => return some []
    | (_, .absent, _) :: _ => return none
    | (name, type, value) :: rest => do
      let value ← match value with
        | some id =>
          if type.isText "bool" then pure ""
          else pure (", default_value = \"" ++ shown (← visit (← nodeOf id)) ++ "\"")
        | none => pure ""
      let text := "#[structopt(short, long" ++ value ++ ")]\npub " ++ name ++ ": " ++ type.shown ++ ","
      return (← go rest).map (text :: ·)
  match ← go members with
  | none => return none
  | some fields =>
    using_ "structopt::StructOpt"
    let pad := Text.times " " 8
    return some ("\n" ++ Text.dedent (pad ++ "#[derive(Debug, StructOpt)]\n" ++
      pad ++ "#[structopt(name = \"" ++ shown (← get).moduleName ++ "\", about = \"Placeholder\")]\n" ++
      pad ++ "struct " ++ c.name ++ " \x7b\n" ++ pad ++ "    " ++ Text.lines fields ++ "\n" ++ pad ++ "\x7d\n" ++ pad))

def plainClass (n : Node) (c : Class Node) : Emit (Option String) := do
  let declarations := (← factsOf n.id).declarations.getD []
  let types := fieldTypes (declarations.map (·.2))
  let fields := (types.zip declarations).map fun (t, (name, _)) => "pub " ++ name ++ ": " ++ t ++ ","
  Members.ownMethods c
  let extension := (← get).extension
  let body ← (dialect visit).lines c.body
  return some ((if extension then "#[pyclass]\n" else "") ++ "pub struct " ++ c.name ++ " \x7b\n" ++
    Text.lines fields ++ "\n\x7d\n\n" ++ (if extension then "#[pymethods]\n" else "") ++
    "impl " ++ c.name ++ " \x7b\n" ++ body ++ " \n\x7d")

def enumClass (n : Node) (c : Class Node) (kind : EnumKind) : Emit (Option String) := do
  match kind with
  | .number =>
    let fields := (← classValues visit n).map fun (k, v) => enumField k v
    return some ("#[derive(Clone, Eq, Hash, PartialEq)]\npub enum " ++ c.name ++ " \x7b\n" ++
      Text.lines fields ++ "\n\x7d\n\n")
  | .text =>
    using_ "strum"
    using_ "strum_macros::\x7bDisplay, EnumString, VariantNames\x7d"
    let fields := (← classValues visit n).map fun (k, v) =>
      if v == "auto()" then k ++ "," else "#[strum(serialize = " ++ v ++ ")]" ++ k ++ ","
    return some ("#[derive(Clone, Debug, Display, EnumString, VariantNames, Eq, Hash, PartialEq)]\npub enum " ++
      c.name ++ " \x7b\n" ++ Text.lines fields ++ "\n\x7d\n\n")
  | .flag =>
    using_ "flagset::flags"
    using_ "std::os::raw::c_int"
    let fields := (← classValues visit n).map fun (k, v) => "        " ++ enumField k v
    return some ("flags! \x7b\n    pub enum " ++ c.name ++ ": c_int \x7b\n" ++ Text.lines fields ++ "\n    \x7d\n\x7d\n\n")

def classDef (n : Node) : Emit (Option String) := do
  let (c, _) ← Members.declare (dialect visit) n keywords true
  match enumKind? c.bases with
  | some kind => enumClass visit n c kind
  | none =>
    let marks := c.decorators.map Node.ident?
    if marks.contains (some "sealed") then sealedClass n c
    else
      let imported := (← get).imported
      let isOptions := marks.any fun m =>
        (m.bind (Known.resolve imported)) == some "argparse_dataclass.dataclass"
      let text ← if isOptions then optionsClass visit n c else pure none
      match text with
      | some s => return some s
      | none => plainClass visit n c

def item (n value index : Node) : Emit (Option String) := do
  let v ← visit value
  let i := shown (← visit index)
  if (← factsOf n.id).inHint then
    let v ← match v.bind fun v => containers.lookup v with
      | some c =>
        using_ "std::collections"
        pure c
      | none => pure (shown v)
    return some (if v == "Tuple" then "(" ++ i ++ ")" else v ++ "<" ++ i ++ ">")
  else
    let v := shown v
    let _ ← TypeStyle.genericHint style.fallback value
    match ← hintOf value with
    | none => return some (v ++ "[" ++ i ++ "]")
    | some t =>
      let facts ← factsOf t.id
      match facts.genericContainer with
      | some (.text "List", _) =>
        let _ ← native.typeOf (← TypeStyle.parameterOf n index)
        return some (v ++ "[" ++ i ++ " as usize]")
      | some (.text "Dict", _) =>
        let type ← native.typeOf (← TypeStyle.parameterOf n index)
        let key ← match facts.container with
          | none => fail .wrongSort
          | some (_, .many (k :: _)) => pure k
          | some (_, .text s) =>
            match s.toList with
            | c :: _ => pure (.text c.toString)
            | [] => fail .outOfRange
          | some (_, .many []) => fail .outOfRange
          | some _ => fail .wrongSort
        let same : Bool := match type with
          | some t => key.isText t
          | none => key == .absent
        return some (v ++ "[" ++ (if same then "&" ++ i else i) ++ "]")
      | _ => return some (v ++ "[" ++ i ++ "]")

def collected (elt : Node) (generators : List Node) : Emit (Option String) := do
  (dialect visit).collected elt generators (fun iter => do
      let i ← present (← visit iter)
      let isRange := match iter.shape with
        | .call func _ _ => func.ident?.any (Text.occursIn "range")
        | _ => false
      return if Text.endsWith i "keys()" || Text.endsWith i "values()" || isRange then i else i ++ ".iter()")
    (fun t e => ".map(|" ++ t ++ "| " ++ e ++ ").collect::<Vec<_>>()")

def step (n : Node) : Emit (Option String) := do
  let d := dialect visit
  match n.shape with
  | .functionDef f => functionDef visit n f ""
  | .asyncFunctionDef f => functionDef visit n f "async "
  | .ret value => returnValue visit n value
  | .lambda args body =>
    let (_, names) ← d.parameters args
    return some ("|" ++ Text.commas names ++ "| " ++ (← d.say body))
  | .attribute value attr _ => member visit n value attr
  | .call func args kwds => call visit n func args kwds
  | .forLoop l =>
    let target ← d.say l.target
    let it ← d.say l.iter
    d.enclosed ("for " ++ target ++ " in " ++ it ++ " \x7b") l.body
  | .compare left (op :: _) (right :: _) => comparison visit left op right
  | .name "None" _ => return some "None"
  | .name id _ =>
    let text := if keywords.contains id then some (id ++ "_") else plainName id
    match ← Scope.find (← Scope.chainOf n) (some id) with
    | some def_ =>
      if def_.id != n.id && (← factsOf def_.id).needsDereference then return text.map ("*" ++ ·) else return text
    | none => return text
  | .exprStmt value =>
    if (← factsOf n.id).unused then allow "clippy::no_effect"
    d.expression value
  | .cond test body orelse => branch visit n test body orelse
  | .whileLoop test body _ =>
    if (← d.visit test) == some "true" then return some ("loop \x7b\n" ++ (← d.lines body) ++ "\n\x7d\n")
    else d.whileTrue test body false
  | .binOp left op right => binary visit n left op right
  | .classDef _ => classDef visit n
  | .list es _ =>
    using_ "std::collections"
    return some ("vec![" ++ (← d.commas es) ++ "]")
  | .dict keys values =>
    using_ "std::collections::HashMap"
    if keys.isEmpty then return some "HashMap::new()"
    else
      let pairs ← (keys.zip values).mapM fun (k, v) => do
        let k ← match k with
          | some k => d.say k
          | none => pure "_"
        return "(" ++ k ++ ", " ++ (← d.say v) ++ ")"
      return some ("[" ++ Text.commas pairs ++ "].iter().cloned().collect::<HashMap<_,_>>()")
  | .set es =>
    using_ "std::collections::HashSet"
    let texts ← d.visitAll es
    if texts.isEmpty then return some "HashSet::new()"
    else return some ("[" ++ (← join ", " texts) ++ "].iter().cloned().collect::<HashSet<_>>()")
  | .subscript value index _ => item visit n value index
  | .assert test _ => return some ("assert!(" ++ (← d.say test) ++ ");")
  | .annAssign target _ value _ =>
    let (t, type, v) ← d.declaration n target value
    let kw ← declarator n target.ident?
    return some (kw ++ " " ++ shown t ++ ": " ++ type.shown ++ " = " ++ shown v ++ ";")
  | .augAssign target op value =>
    let t ← d.say target
    let v ← d.say value
    let cast ← needsCast target value
    return some (t ++ " " ++ d.binarySymbol op ++ "= " ++ (← castValue target value v cast) ++ ";")
  | .delete (t :: _) => return some ("drop(" ++ (← d.say t) ++ ");")
  | .raise (some e) _ => return some ("raise!(" ++ (← d.say e) ++ "); //unsupported")
  | .raise none _ => return some "raise!(); //unsupported"
  | .await value => return some ((← d.say value) ++ ".await")
  | .yield value =>
    feature "generators"
    feature "generator_trait"
    using_ "std::ops::Generator"
    using_ "std::ops::GeneratorState"
    match value with
    | some v => return some ("yield " ++ (← d.say v) ++ ";")
    | none => return some "yield None;"
  | .generatorExp elt gens | .listComp elt gens | .setComp elt gens => collected visit elt gens
  | .global names => return some ("//global " ++ Text.commas names)
  | .starred value _ => return some ("starred!(" ++ (← d.say value) ++ ")/*unsupported*/")
  | .ifExp test body orelse => d.choiceOfBlocks test body orelse
  | .attempt t =>
    let _ ← d.attemptLines n t
    feature "try_blocks"
    let body ← d.lines t.body
    let handlers ← t.handlers.mapM fun h => do return some ("//" ++ (← require (← visit h)))
    return some (← join "\n" ([some "let result: Result<_, std::error::Error> = try \x7b ", some body, some "\x7d;"] ++
      handlers))
  | .exceptHandler .. => return some "unsupported exception handler"
  | _ => d.step n

def emit : Visit := Target.emitter step

/-- Warnings that emitted programs always switch off. -/
def lints : List String :=
  ["clippy::assertions_on_constants)]", "clippy::bool_comparison)]", "clippy::collapsible_else_if)]",
   "clippy::comparison_to_empty)]",
   "clippy::double_parens)] // https://github.com/adsharma/py2many/issues/17", "clippy::eq_op)]",
   "clippy::let_with_type_underscore)]", "clippy::map_identity)]", "clippy::needless_return)]",
   "clippy::nonminimal_bool)]", "clippy::partialeq_to_none)]", "clippy::print_literal)]", "clippy::ptr_arg)]",
   "clippy::redundant_static_lifetimes)] // https://github.com/adsharma/py2many/issues/266",
   "clippy::unnecessary_cast)]", "clippy::upper_case_acronyms)]", "clippy::useless_vec)]",
   "non_camel_case_types)]", "non_snake_case)]", "non_upper_case_globals)]", "unused_imports)]",
   "unused_mut)]", "unused_parens)]"]

def usings : Emit String := do
  if (← get).extension then
    using_ "pyo3::prelude::*"
    using_ "pyo3::wrap_pyfunction"
  let page ← get
  let used := sorted page.usings
  let deps := sorted ((used.filter fun m => !(Text.startsWith m "std:")).map fun m =>
    (Text.split m "::").headD "").eraseDups
  let crates := deps.map fun m => Text.replaceAll m "-" "_"
  let externs := crates.map (fun m => "extern crate " ++ m ++ ";") ++
    page.neighbours.map (fun m => "mod " ++ m ++ ";")
  let uses := (used.filter fun m =>
    !(["strum", "lazy_static", "float-ord"].contains m) && !(deps.contains m)).map fun m =>
      "use " ++ Text.replaceAll m "-" "_" ++ ";"
  let lintText := if page.bare then "" else "\n" ++ String.join (lints.map fun l => "#![allow(" ++ l ++ "\n")
  let allowed := Text.lines (page.allows.map fun a => "#![allow(" ++ a ++ ")]")
  let pad := Text.times " " 8
  let package := String.join
    (["```cargo", "[package]", "edition = \"2021\"", "[dependencies]",
      "\n//! ".intercalate (deps.map fun m => m ++ " = \"*\""), "```"].map fun l => pad ++ "//! " ++ l ++ "\n")
  return package ++ pad ++ "\n" ++ lintText ++ allowed ++ "\n\n" ++ Text.lines externs ++ "\n" ++
    Text.lines uses ++ "\n"

def features : Emit String := do
  let fs := (← get).features
  return if fs.isEmpty then "" else "#![feature(" ++ Text.commas (sorted fs) ++ ")]"

def extensionModule (n : Node) : Emit String := do
  Calls.defined n
  let defs ← ((← factsOf n.id).definedFunctions.getD []).mapM fun id => do return shown (← nodeOf id).ident?
  let funcs := (defs.filter fun f => !(Text.startsWith f "_")).map fun f =>
    "m.add_function(wrap_pyfunction!(" ++ f ++ ", m)?)?;"
  let pad := Text.times " " 12
  let name := shown ((← get).file.map Path.stem)
  return Text.dedent (pad ++ "#[pymodule]\n" ++ pad ++ "fn " ++ name ++
    "(_py: Python, m: &PyModule) -> PyResult<()> \x7b\n" ++ pad ++ "    " ++ Text.lines funcs ++ "\n\n" ++
    pad ++ "    Ok(())\n" ++ pad ++ "\x7d\n" ++ pad)

def target : Target where
  language := .rust
  lowerings := [("RustNoneCompareRewriter", wrapOptional)]
  analyses o := [infer o.extension]
  laterLowerings := [("RustLoopIndexRewriter", followItems), ("RustStringJoinRewriter", joinByList)]
  start o := { extension := o.extension, bare := o.bare }
  install := install
  emit := emit
  usings := usings
  features := features
  extensionModule := extensionModule

end Polyglot.Rust
