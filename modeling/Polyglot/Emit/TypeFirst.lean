import Polyglot.Emit.Members

/-!
# Types before names

What languages have in common that write the type of a variable before its name.
-/
namespace Polyglot.TypeFirst

open Session Emit Dialect Plugins

def keywords : List String :=
  ["assert", "break", "case", "catch", "class", "const", "continue", "default", "do", "else", "enum", "extends",
   "false", "final", "finally", "for", "if", "in", "is", "new", "null", "rethrow", "return", "super", "switch",
   "this", "throw", "true", "try", "var", "void", "while", "with"]

def name (id : String) : Option String :=
  if id == "None" then some "null"
  else if id == "ZeroDivisionError" then some "IntegerDivisionByZeroException"
  else if keywords.contains id then some (id ++ "_")
  else plainName id

def quotedBytes (bs : List UInt8) : String := Text.replaceAll (Text.quotedBytes bs) "'" "\""

def rangeParts (n : Node) (vargs : List (Option String)) : Emit (String × String × String) := do
  match vargs, (callArgs n).length with
  | [stop], _ => return ("0", shown stop, "1")
  | _, 2 => return (← argAt vargs 0, ← argAt vargs 1, "1")
  | _, 3 => return (← argAt vargs 0, ← argAt vargs 1, ← argAt vargs 2)
  | _, _ => refuseRange vargs

/-- The known functions; `minMax` and `int`, `floor`, `float` say how these are written, `library` where `exit` is found. -/
def plugins (minMax : String → Plugin) (range printLine : Plugin) (int floor float library : String) : Plugins where
  byName :=
    [("max", minMax "max"), ("min", minMax "min"), ("range", range), ("xrange", range), ("print", printLine)]
  small :=
    [("str", optionalCall "" ".toString()" "\"\""), ("len", unaryCall "" ".length"), ("int", optionalCall "" int "0"),
     ("bool", optionalCall "(" " != 0)" "false"), ("floor", unaryCall "" floor), ("float", optionalCall "" float "0")]
  byFunction :=
    [("sys.exit", fun _ vargs => do
        using_ library
        return some ("exit(" ++ (← argAt vargs 0) ++ ")"), true)]

def places (n : Node) : String := " ".intercalate ((callArgs n).map fun _ => "%s")

def param (style : TypeStyle) (n : Node) : Emit (TypeTerm × String) := do
  match n.shape with
  | .arg "self" _ => return (.absent, "self")
  | .arg id none => return (.text "T", id)
  | .arg id (some _) => return (← style.ofHint n, id)
  | _ => fail .missingPart

def temporary : Emit String := do
  modify fun p => { p with temporaries := p.temporaries + 1 }
  return "__tmp" ++ toString (← get).temporaries

/-- The decisions that these languages share; `path` says how the path of a module is written. -/
def dialect (visit : Visit) (style : TypeStyle) (install : Analysis Unit) (path : String → String) : Dialect where
  visit := visit
  style := style
  nothing := "null"
  bytes _ bs := return some (quotedBytes bs)
  importOne name := return some ("import \"" ++ name ++ "\";")
  importFrom source names _ := return some ("import \"" ++ path source ++ "\";  // " ++ Text.commas names)
  param := param style
  makeBlock _ body := do
    return some (← join "\n" ([some "\x7b"] ++ (← body.mapM visit) ++ [some "\x7d"]))
  start := {}
  install := install

variable (d : Dialect)

def assigning (assignOne : Node → Node → Node → Emit (Option String)) : Dialect :=
  { d with
    assignOne := fun n target => match n.shape with
      | .assign _ value => assignOne n target value
      | _ => fail .missingPart }

/-- A call; `before` says what stands before one of a function that is not known. -/
def call (plugins : Plugins) (n func : Node) (args kwds : List Node)
    (before : Option String → Emit String := fun _ => return "") : Emit (Option String) := do
  let name ← d.visit func
  let vargs ← d.visitAll (args ++ keywordValues kwds)
  match ← plugins.dispatch n name vargs with
  | some s => return some s
  | none =>
    let args ← join ", " vargs
    return some ((← before name) ++ shown name ++ "(" ++ args ++ ")")

/-- The parameters of a function that are written: not the object itself, and of the entry function not the count. -/
def ownParams (n : Node) (f : Function Node) : Emit (List (TypeTerm × String)) := do
  let (ts, names) ← d.parameters f.args
  let facts ← factsOf n.id
  let ps := ts.zip names
  let ps := if facts.selfType.isSome then ps.drop 1 else ps
  return if facts.isEntry then ps.filter fun (_, name) => name != "argc" else ps

def functionDef (n : Node) (f : Function Node) (void openBracket closeBracket : String) : Emit (Option String) := do
  let body ← d.lines f.body
  let ps ← ownParams d n f
  let (types, generics) := paramTypes (ps.map (·.1))
  let args := (types.zip ps).map fun (t, (_, name)) => t ++ " " ++ name
  let (result, generics) ← if ← Tracing.isVoid n then pure (void, generics)
    else do
      let told ← if f.returns.isSome then d.style.ofReturns n else pure d.fallback
      pure (if told != d.fallback && told.shown != "" then (told.shown, generics) else ("RT", generics ++ ["RT"]))
  let template := if generics.isEmpty then "" else openBracket ++ Text.commas generics ++ closeBracket
  return some (result ++ " " ++ f.name ++ template ++ "(" ++ Text.commas args ++ ") \x7b\n" ++ body ++ "\x7d\n\n")

/-- A member of a value that is no special one: of the object itself it is called by its name. -/
def member (n : Node) (value : Option String) (attr : String) : Emit (Option String) := do
  let v := value.getD ""
  let scopes ← Scope.chainOf n
  if ← Scope.isClassOrModule (some v) scopes then return some (v ++ "." ++ attr)
  else if ← Scope.isSelfArg (some v) scopes then return some attr
  else return some (v ++ "." ++ attr)

/-- The container that a value is, in the source's names, as far as it is known. -/
def containerOf (n : Node) : Emit (Option TypeTerm) := do
  match ← hint? n with
  | none => return none
  | some t =>
    let _ ← TypeStyle.genericHint d.fallback n
    match t with
    | none => return none
    | some t => return (← factsOf t.id).genericContainer.map (·.1)

/-- A comparison: `within` says how membership is written, `equal` how lists are compared. -/
def comparison (n left : Node) (op : CmpOp) (right : Node)
    (within : String → String → Option TypeTerm → Emit String) (outside : Emit String → Emit String)
    (equal : String → String → Emit String) : Emit (Option String) := do
  let l ← d.say left
  let r ← d.visit right
  let container ← containerOf d right
  let r ← if container == some (.text "Dict") then do pure ((← require r) ++ ".keys") else present r
  let r := if Text.endsWith r ".keys()" || Text.endsWith r ".values()" then Text.dropLast r 2 else r
  match op with
  | .isIn => return some (← within l r container)
  | .notIn => return some (← outside (within l r container))
  | .eq =>
    if (← containerOf d left) == some (.text "List") then return some (← equal l r) else d.step n
  | _ => d.step n

def binary (n left : Node) (op : BinOp) (right : Node) (whole : String) : Emit (Option String) := do
  let l ← d.say left
  let r ← d.say right
  let symbol := d.binarySymbol op
  match op with
  | .pow => return some ("pow(" ++ l ++ ", " ++ r ++ ")")
  | .mult | .div =>
    let symbol := if (← factsOf n.id).integerDivision then whole else symbol
    return some ("(" ++ l ++ symbol ++ r ++ ")")
  | _ => return some ("(" ++ l ++ " " ++ symbol ++ " " ++ r ++ ")")

def hintItem (value index openBracket closeBracket : String) : Emit (Option String) := do
  let v := ((← get).session.maps.containers.lookup value).getD value
  return some (if v == "Tuple" then "(" ++ index ++ ")" else v ++ openBracket ++ index ++ closeBracket)

/-- An item of a container, or a type inside an annotation. -/
def item (n value index : Node) (openBracket closeBracket : String) : Emit (Option String) := do
  let v ← d.say value
  let i ← d.say index
  if (← factsOf n.id).inHint then hintItem v i openBracket closeBracket else return some (v ++ "[" ++ i ++ "]")

def handler (type : Option Node) (bound : Option String) (body : List Node) : Emit (Option String) := do
  let head ← match type with
    | none => pure "catch(e) \x7b"
    | some t =>
      let caught := match bound with
        | some "" | none => ""
        | some name => " catch(" ++ name ++ ")"
      pure ("on " ++ (← d.say t) ++ caught ++ " \x7b")
  d.enclosed head body

/-- Assigns to each of several targets a part of a temporary. -/
def assignParts (targets : List Node) (value : Node) (first : String → String → String)
    (part : String → Nat → String) : Emit (Option String) := do
  let names ← targets.mapM d.say
  let v ← d.say value
  let tmp ← temporary
  let rest := names.zipIdx.map fun (name, i) => name ++ " = " ++ part tmp i ++ ";"
  return some (Text.lines (first tmp v :: rest))

def assignPlain (n target value : Node) (kw : String) (outer : Option Node)
    (adjust : TypeTerm → Emit TypeTerm := fun t => return t) : Emit (Option String) := do
  let scopes ← Scope.chainOf n
  match ← sharedTarget? d.visit scopes target with
  | some id => return some (kw ++ " " ++ shown id ++ " = " ++ (← d.say value) ++ ";")
  | none =>
    let set ← if target.isSubscript || target.isAttribute then pure true
      else do
        let definition ← match outer with
          | some o => pure (some o)
          | none => Scope.find scopes target.ident?
        Scope.isSetBefore target definition n
    let type ← if set then pure d.fallback else d.typeOf target
    let t ← d.say target
    let v ← d.say value
    if set then return some (t ++ " = " ++ v ++ ";")
    else
      let type ← adjust type
      if type == d.fallback then return some (kw ++ " " ++ t ++ " = " ++ v ++ ";")
      else if d.fallback.isText kw then return some (type.shown ++ " " ++ t ++ " = " ++ v ++ ";")
      else return some (kw ++ " " ++ type.shown ++ " " ++ t ++ " = " ++ v ++ ";")

def step (n : Node) : Emit (Option String) := do
  match n.shape with
  | .name id _ => return name id
  | .lambda args body =>
    let (_, names) ← d.parameters args
    return some ("(" ++ Text.commas names ++ ") => " ++ (← d.say body))
  | .list es _ => return some ("[" ++ (← d.commas es) ++ "]")
  | .raise (some e) _ => return some ("throw new " ++ (← d.say e) ++ ";")
  | .raise none _ => return some "throw new Exception();"
  | .attempt t => d.tryBlock t
  | .exceptHandler type bound body => handler d type bound body
  | .assert test _ => return some ("assert(" ++ (← d.say test) ++ ");")
  | .global names => return some ("//global " ++ Text.commas names)
  | .starred v _ => return some ("starred!(" ++ (← d.say v) ++ ")/*unsupported*/")
  | .ifExp test body orelse =>
    let b ← d.say body
    let o ← d.say orelse
    return some ((← d.say test) ++ "? (" ++ b ++ ") : (" ++ o ++ ")")
  | _ => d.step n

end Polyglot.TypeFirst
