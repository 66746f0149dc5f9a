import Polyglot.Analysis.Marks
import Polyglot.Analysis.Scopes
import Polyglot.Emit.Target

/-!
# C++
-/
namespace Polyglot.Cpp

open Session Emit Dialect Plugins

def types : List (String × String) :=
  [("bool", "bool"), ("int", "int"), ("float", "double"), ("bytes", "byte[]"), ("str", "std::string")] ++
    fixedWidths ["int8_t", "int16_t", "int32_t", "int64_t", "uint8_t", "uint16_t", "uint32_t", "uint64_t"]

def containers : List (String × String) :=
  [("List", "std::vector"), ("Dict", "std::map"), ("Set", "std::set"), ("Optional", "std::optional")]

/-- Words that cannot name anything; the names of types may. -/
def keywords : List String :=
  ["alignas", "alignof", "and", "and_eq", "asm", "atomic_cancel", "atomic_commit", "atomic_noexcept", "bitand",
   "bitor", "break", "case", "catch", "class", "co_await", "compl", "concept", "const", "const_cast",
   "consteval", "constexpr", "constinit", "continue", "co_return", "co_yield", "decltype", "default", "delete",
   "do", "double", "dynamic_cast", "else", "enum", "explicit", "export", "extern", "false", "for", "friend",
   "goto", "if", "inline", "mutable", "namespace", "new", "noexcept", "not", "not_eq", "nullptr", "operator",
   "or", "or_eq", "private", "protected", "public", "reflexpr", "register", "reinterpret_cast", "requires",
   "return", "sizeof", "static", "static_assert", "static_cast", "struct", "switch", "synchronized",
   "template", "this", "thread_local", "throw", "true", "try", "typedef", "typeid", "typename", "union",
   "unsigned", "using", "virtual", "void", "volatile", "while", "xor", "xor_eq"]

def safeName (id : String) : String := if keywords.contains id then id ++ "_" else id

def style : TypeStyle := .common

/-! ### Types by deduction -/

def tracedConstant (v : Literal) : String :=
  match v with
  | .str s => quotedText s
  | .bytes bs => byteList bs
  | .bool b => if b then "true" else "false"
  | .nothing => "NULL"
  | .ellipsis => "/* ... */"
  | v => v.shown

def plainWording : Tracing.Wording :=
  { operator := Symbols.common.binary, constant := Literal.shown, stopsAtCycles := true, keepsUnassigned := true }

def wording : Tracing.Wording :=
  { operator := Symbols.common.binary, constant := tracedConstant, stopsAtCycles := false, keepsUnassigned := false }

def valueType (n : Node) : Analysis (Option String) := Tracing.guess plainWording wording n

def valueExpression (n : Node) : Analysis (Option String) := Tracing.valueOf wording n

def deduced (n : Node) : Analysis String := do
  let list ← Tracing.isList n
  let t := "decltype(" ++ shown (← valueType n) ++ ")"
  return if list then "std::vector<" ++ t ++ ">" else t

/-! ### Lowering -/

/-- A comparison with a list goes through a temporary. -/
def nameLists : Lowering := fun self n => do
  match n.shape with
  | .compare left ops comparators =>
    let left ← Lowering.one self left
    let comparators ← comparators.mapM (Lowering.one self)
    match comparators with
    | right :: rest =>
      if right.isList then
        let tmp ← Lowering.nameOn n.line ("__tmp" ++ toString (← nextTemporary "comparison"))
        let set ← Lowering.assignOn n.line tmp right
        let compare ← freshAt n.line none (.compare left ops (tmp :: rest))
        return [← Lowering.block [set, compare] n]
      else return [n]
    | [] => fail .outOfRange
  | _ => Lowering.through self n

/-! ### Known functions -/

def fileName (id : Option String) : String :=
  match id with
  | some "sys.stdout" => "std::cout"
  | some "sys.stdin" => "std::cin"
  | some "sys.stderr" => "std::cerr"
  | id => shown id

def receiver (n : Node) : Emit (Option String) := do
  match n.shape with
  | .call func _ _ =>
    match func.shape with
    | .attribute v _ _ | .subscript v _ _ | .starred v _ => return v.ident?
    | _ => fail .missingPart
  | _ => fail .missingPart

def printCall (visit : Visit) (n : Node) : Emit (Option String) := do
  using_ "<iostream>"
  let texts ← (callArgs n).mapM fun a => do
    let value ← visit a
    match a.shape with
    | .list es _ | .tuple es _ =>
      return "std::cout << " ++ (← join " << " (← es.mapM visit)) ++ ";"
    | _ => return "std::cout << " ++ shown value ++ ";"
  if texts.isEmpty then fail .outOfRange
  else
    return some ("\nstd::cout << \" \";\n".intercalate texts ++ "\nstd::cout << std::endl;")

def minMax (name : String) : Plugin := fun n vargs => do
  using_ "<algorithm>"
  match callArgs n with
  | [] => fail .outOfRange
  | a :: _ =>
    if (← factsOf a.id).container.isSome then
      let v ← argAt vargs 0
      return some ("*std::" ++ name ++ "_element(" ++ v ++ ".begin(), " ++ v ++ ".end());")
    else return some ("std::" ++ name ++ "(" ++ (← join ", " vargs) ++ ")")

def range : Plugin := fun _ vargs => do
  using_ "<cppitertools/range.hpp>"
  return some ("iter::range(" ++ (← join ", " vargs) ++ ")")

def cast (type : String) : Plugin := fun _ vargs => do
  return some ("static_cast<" ++ type ++ ">(" ++ (← argAt vargs 0) ++ ")")

def plugins (visit : Visit) : Plugins where
  byName :=
    [("max", minMax "max"), ("min", minMax "min"), ("range", range), ("xrange", range),
     ("print", fun n _ => printCall visit n)]
  small :=
    [("int", cast "int"), ("chr", cast "char"), ("str", optionalCall "std::to_string(" ")" "\"\""),
     ("bool", optionalCall "static_cast<bool>(" ")" "false"), ("len", unaryCall "static_cast<int>(" ".size())"),
     ("float", cast "float"), ("floor", unaryCall "static_cast<int>(floor(" "))")]
  smallUsings := [("floor", "<math.h>")]
  byFunction :=
    [("io.TextIOWrapper.read", fun _ _ => return none, true),
     ("io.TextIOWrapper.write", fun n vargs => do
        using_ "<iostream>"
        return some (fileName (← receiver n) ++ " << " ++ (← argAt vargs 0)), true),
     ("io.TextIOWrapper.flush", fun n _ => do
        using_ "<iostream>"
        return some (fileName (← receiver n) ++ ".flush()"), true),
     ("math.asin", unaryCall "std::asin(" ")", false), ("math.acos", unaryCall "std::acos(" ")", false),
     ("math.cos", unaryCall "std::cos(" ")", false), ("math.atan", unaryCall "std::atan(" ")", false),
     ("math.pow", fun _ vargs => do
        return some ("std::pow(" ++ (← argAt vargs 0) ++ ", " ++ (← argAt vargs 1) ++ ")"), false),
     ("os.unlink", unaryCall "std::fs::remove_file(" ")", true), ("sys.exit", unaryCall "exit(" ")", true)]

/-! ### Rules -/

def start : Page := { usings := ["<cstdint>"] }

def remark (what : String) : Emit String :=
  return if (← get).bare then "" else "  // NOLINT(" ++ what ++ ")"

def header (line : String) : Emit Unit := modify fun p => { p with headers := p.headers ++ [line] }

def param (n : Node) : Emit (TypeTerm × String) := do
  match n.shape with
  | .arg "self" _ => return (.absent, "self")
  | .arg id ann =>
    match ann with
    | none => return (.text "T", safeName id)
    | some _ =>
      let type ← style.ofHint n
      let type := if (← factsOf n.id).container.isSome then .text (type.shown ++ "&") else type
      match type with
      | .text s => if Text.occursIn "std::map" s then header "#include <map>"
      | .value _ => fail .wrongSort
      | _ => pure ()
      return (type, safeName id)
  | _ => fail .missingPart

def elementType (n : Node) : Emit TypeTerm := do
  let _ ← style.ofHint n
  match (← factsOf n.id).container with
  | some (_, element) => return element
  | none => return style.fallback

def isIn (visit : Visit) (n : Node) : Emit (Option String) := do
  using_ "<algorithm>"
  match n.shape with
  | .compare left _ (right :: _) =>
    let l := shown (← visit left)
    let r := shown (← visit right)
    let _ ← TypeStyle.genericHint style.fallback right
    match (← factsOf right.id).genericContainer with
    | some (.text "Dict", _) => return some ("(" ++ r ++ ".find(" ++ l ++ ") != " ++ r ++ ".end())")
    | _ => return some ("(std::find(" ++ r ++ ".begin(), " ++ r ++ ".end(), " ++ l ++ ") != " ++ r ++ ".end())")
  | _ => fail .outOfRange

def makeBlock (visit : Visit) (n : Node) (body : List Node) : Emit (Option String) := do
  let texts := some "(\x7b" :: (← body.mapM visit)
  let last ← present (texts.getLast?.join)
  let texts := if Text.endsWith last ";" then texts else texts ++ [some ";"]
  note n.id ({ · with isBlock := some true })
  return some (← join "\n" (texts ++ [some "\x7d)"]))

def importOne (name : String) : Emit (Option String) := do
  let name := if name == "time" then "<chrono>" else if name == "random" then "<cstdlib>" else name
  return some (if Text.occursIn "<" name then "#include " ++ name else "#include \"" ++ name ++ ".h\"")

def importFrom (name : String) : Emit (Option String) :=
  return some ("#include \"" ++ Text.replaceAll name "." "::" ++ ".h\"")

def assignOne (visit : Visit) (n target : Node) : Emit (Option String) := do
  match n.shape with
  | .assign _ value =>
    let scopes ← Scope.chainOf n
    let plain : Emit (Option String) := do
      let t ← visit target
      let v ← visit value
      return some (shown t ++ " = " ++ shown v ++ ";")
    match target.shape with
    | .tuple es _ =>
      let es ← es.mapM visit
      let v ← visit value
      return some ("std::tie(" ++ (← join ", " es) ++ ") = " ++ shown v ++ ";")
    | _ =>
      let scope ← Scope.innermost scopes
      let common ← match scope.isCond, target.shape with
        | true, .name id _ =>
          match (← factsOf scope.id).commonVars with
          | none => fail .missingPart
          | some vars => pure (vars.contains (some id))
        | _, _ => pure false
      if common then
        let v ← visit value
        return some (shown target.ident? ++ " = " ++ shown v ++ ";")
      else if target.isSubscript then plain
      else
        let definition ← Scope.findOutward scopes target.ident?
        if ← Scope.isSetBefore target definition n then plain
        else
          let type ← if value.isList then do
              let element ← elementType value
              if element == style.fallback then pure (← deduced n)
              else
                using_ "<vector>"
                pure ("std::vector<" ++ element.shown ++ ">")
            else pure (← style.ofHint target).shown
          let t ← visit target
          let v ← visit value
          if type == "std::string" && (← Scope.isGlobal n) then
            using_ "<string>"
            return some (type ++ " " ++ shown t ++ " = " ++ shown v ++ ";" ++ (← remark "runtime/string"))
          else return some (type ++ " " ++ shown t ++ " = " ++ shown v ++ ";")
  | _ => fail .missingPart

def install : Analysis Unit := Target.installMaps types containers

def dialect (visit : Visit) : Dialect where
  visit := visit
  style := style
  quote _ s := do
    using_ "<string>"
    return some ("std::string\x7b" ++ quotedText s ++ "\x7d")
  bytes _ bs := do
    header "#include <array>"
    return some ("((std::array<unsigned char, " ++ toString bs.length ++ ">)" ++ byteList bs ++ ")")
  isIn := isIn visit
  assignOne := assignOne visit
  importOne := importOne
  importFrom name _ _ := importFrom name
  param := param
  makeBlock := makeBlock visit
  start := start
  install := install

variable (visit : Visit)

def functionDef (n : Node) (f : Function Node) : Emit (Option String) := do
  let d := dialect visit
  let body ← d.lines f.body
  let made ← match f.body.getLast? with
    | some last => pure ((← factsOf last.id).isBlock.getD false)
    | none => pure false
  let body := if made then body ++ ";" else body
  let void ← Tracing.isVoid n
  if (← get).testCases && void && Text.startsWith f.name "test" then
    return some ("TEST_CASE(\"" ++ f.name ++ "\") \x7b\n" ++ body ++ "\n\x7d")
  else
    let facts ← factsOf n.id
    let (ts, names) ← d.parameters f.args
    let ps := ts.zip names
    let ps := if facts.selfType.isSome then ps.drop 1 else ps
    let (types, generics) := paramTypes (ps.map (·.1))
    let args := (types.zip (ps.map (·.2))).map fun (t, name) =>
      (if facts.isEntry && name == "argv" then "char **" else t) ++ " " ++ name
    let template :=
      if facts.isEntry then ""
      else if !generics.isEmpty then "template <" ++ Text.commas (generics.map ("typename " ++ ·)) ++ ">"
      else "inline "
    let result ← if void then pure "void"
      else if f.returns.isSome then pure (← style.ofReturns n).shown
      else pure "auto"
    return some (template ++ result ++ " " ++ f.name ++ "(" ++ Text.commas args ++ ") \x7b\n" ++ body ++ "\x7d\n")

def member (n value : Node) (attr : String) : Emit (Option String) := do
  let v ← visit value
  let text := shown v
  let attr ← if (← Tracing.isList value) && attr == "append" then pure "push_back" else pure attr
  if v == some "string" then return some ("std::" ++ text ++ "::" ++ attr)
  else
    let scopes ← Scope.chainOf n
    if ← Scope.isEnum v scopes then return some (text ++ "::" ++ attr)
    else if ← Scope.isClassOrModule v scopes then return some (text ++ "." ++ attr)
    else if ← Scope.isSelfArg v scopes then return some ("this->" ++ attr)
    else if text ++ "." ++ attr == "sys.argv" then
      using_ "<string>"
      using_ "<vector>"
      return some "std::vector<std::string>(argv, argv + argc)"
    else return some (text ++ "." ++ attr)

/-- The members of an enumeration with their values; a value that is left open is the member's number. -/
def enumFields (n : Node) : Emit (List (String × String)) := do
  return (← classValues visit n).zipIdx.map fun ((member, value), i) =>
    (member, if value == "auto()" then toString i else value)

def numberEnum (n : Node) (c : Class Node) : Emit (Option String) := do
  let fields ← enumFields visit n
  let text := String.join (fields.map fun (k, v) => k ++ " = " ++ v ++ ",")
  return some ("enum " ++ c.name ++ " : int \x7b\n" ++ text ++ "\x7d;\n")

def textEnum (n : Node) (c : Class Node) : Emit (Option String) := do
  let assigned := (← factsOf n.id).classAssignments.getD []
  let parts ← assigned.mapM fun (member, value) => do
    match value with
    | none => throw emptyNode
    | some id =>
      let value ← nodeOf id
      let _ ← visit value
      let raw ← match value.shape with
        | .constant (.str s) _ => pure (quotedText s)
        | _ => fail .missingPart
      let member ← member.shown
      return ("static const " ++ c.name ++ " " ++ member ++ ";",
        "const " ++ c.name ++ " " ++ c.name ++ "::" ++ member ++ "= " ++ raw ++ ";")
  let note ← remark "runtime/explicit"
  using_ "<string>"
  let pad := Text.times " " 12
  return some (Text.dedent (pad ++ "class " ++ c.name ++ " : public std::string \x7b\n" ++ pad ++ "public:\n" ++
    pad ++ "  " ++ c.name ++ "(const char* s) : std::string(s) \x7b\x7d" ++ note ++ "\n" ++
    pad ++ "  " ++ Text.lines (parts.map (·.1)) ++ "\n" ++ pad ++ "\x7d;\n\n" ++
    pad ++ Text.lines (parts.map (·.2)) ++ "\n\n" ++ pad))

def classDef (n : Node) : Emit (Option String) := do
  let d := dialect visit
  let (c, declarations) ← Members.declare d n
  match enumKind? c.bases with
  | some .text => textEnum visit n c
  | some _ => numberEnum visit n c
  | none =>
    let types := fieldTypes (declarations.map (·.2))
    let fields := (types.zip declarations).map fun (t, (name, _)) => t ++ " " ++ name
    Members.ownMethods c
    let body ← d.visitAll c.body
    let constructor :=
      if (← factsOf n.id).isDataclass.getD false then
        let sets := declarations.map fun (name, _) => "this->" ++ name ++ " = " ++ name
        [some (c.name ++ "(" ++ Text.commas fields ++ ") \x7b" ++ "; ".intercalate sets ++ ";\x7d")]
      else []
    let head := ["class " ++ c.name ++ " \x7b", "public:", ";\n".intercalate (fields ++ [""])]
    return some ((← join "\n" (head.map some ++ constructor ++ body ++ [some "\x7d;"])) ++ "\n")

def call (n func : Node) (args keywords : List Node) : Emit (Option String) := do
  let name ← visit func
  let vargs ← (args ++ keywordValues keywords).mapM visit
  match ← (plugins visit).dispatch n name vargs with
  | some s => return some s
  | none =>
    if vargs.any Option.isNone then
      refuse ("Call " ++ shown name ++ " (" ++ quotedList vargs ++ ") not supported") n
    else return some (shown name ++ "(" ++ (← join ", " vargs) ++ ")")

def branch (n test : Node) (body orelse : List Node) : Emit (Option String) := do
  let scopes ← Scope.chainOf n
  let common ← sharedVars n
  let definitions ← common.mapM fun v => do
    let d ← Scope.find scopes v
    let t ← (dialect visit).typeOf? d
    let t ← if t == style.fallback then
        match d with
        | some d => deduced d
        | none => fail .missingPart
      else pure t.shown
    return t ++ " " ++ shown v ++ ";\n"
  let text ← (dialect visit).branch n test body orelse true
  return some (String.join definitions ++ (← require text))

def operand (n : Node) : Emit String := do
  let s := shown (← visit n)
  return if n.isName || n.isConstant then s else "(" ++ s ++ ")"

def binary (left : Node) (op : BinOp) (right : Node) : Emit (Option String) := do
  match left.shape, op with
  | .list es _, .mult =>
    if isWhole right then
      using_ "<vector>"
      let r := shown (← visit right)
      match es with
      | e :: _ => return some ("std::vector (" ++ r ++ "," ++ shown (← visit e) ++ ")")
      | [] => fail .outOfRange
    else plain
  | _, .pow =>
    using_ "<cmath>"
    let l := shown (← visit left)
    return some ("std::pow(" ++ l ++ ", " ++ shown (← visit right) ++ ")")
  | _, _ => plain
where
  plain : Emit (Option String) := do
    let l ← operand visit left
    let r ← operand visit right
    return some (← join " " [some l, Symbols.common.binary op, some r])

def attemptBlock (t : Attempt Node) : Emit (Option String) := do
  using_ "<iostream>"
  let body ← t.body.mapM visit
  let handlers ← t.handlers.mapM visit
  return some (← join "\n" ([some "try \x7b"] ++ body ++ [some "\x7d catch (const std::exception& e) \x7b"] ++
    handlers ++ [some "\x7d",
      some "catch (const std::overflow_error& e) \x7b std::cout << \"OVERFLOW ERROR\" << std::endl; \x7d",
      some "catch (const std::runtime_error& e) \x7b std::cout << \"RUNTIME ERROR\" << std::endl; \x7d",
      some "catch (...) \x7b std::cout << \"UNKNOWN ERROR\" << std::endl; 0\x7d"]))

def dict (n : Node) (keys : List (Option Node)) (values : List Node) : Emit (Option String) := do
  let d := dialect visit
  using_ "<map>"
  let pairs := Text.commas (← d.entries keys values fun k v => "\x7b " ++ k ++ ", " ++ v ++ " \x7d")
  let _ ← style.ofHint n
  match (← factsOf n.id).container with
  | some (_, .many [k, v]) =>
    let k := if k == style.fallback then "int" else k.shown
    return some ("std::map<" ++ k ++ ", " ++ v.shown ++ ">\x7b" ++ pairs ++ "\x7d")
  | some (_, .many _) | some (_, .text _) => fail .badValue
  | some _ => fail .wrongSort
  | none => return some ((← deduced n) ++ "\x7b" ++ pairs ++ "\x7d")

def step (n : Node) : Emit (Option String) := do
  let d := dialect visit
  match n.shape with
  | .functionDef f => functionDef visit n f
  | .global _ => return some ""
  | .attribute value attr _ => member visit n value attr
  | .classDef _ => classDef visit n
  | .call func args keywords => call visit n func args keywords
  | .forLoop l =>
    let target ← d.say l.target
    let it ← d.say l.iter
    d.enclosed ("for(auto " ++ target ++ " : " ++ it ++ ") \x7b") l.body
  | .lambda args body =>
    let (_, names) ← d.parameters args
    let b ← d.say body
    return some ("[](" ++ Text.commas (names.map ("auto " ++ ·)) ++ ") \x7b return " ++ b ++ "; \x7d")
  | .name "None" _ => return some "nullptr"
  | .name id _ => return if keywords.contains id then some (id ++ "_") else plainName id
  | .exprStmt value =>
    let s ← d.expression value
    if (← factsOf n.id).unused then return some ("(void) " ++ (← require s)) else return s
  | .cond test body orelse => branch visit n test body orelse
  | .slice .. => d.children n
  | .binOp left op right => binary visit left op right
  | .list es _ =>
    using_ "<vector>"
    let texts ← d.commas es
    let _ ← elementType n
    return some ("\x7b" ++ texts ++ "\x7d")
  | .set es =>
    using_ "<set>"
    let texts ← d.commas es
    let element ← elementType n
    let type ← if element == style.fallback then deduced n
      else pure ("std::set<" ++ element.shown ++ ">")
    return some (type ++ "\x7b" ++ texts ++ "\x7d")
  | .dict keys values => dict visit n keys values
  | .subscript value index _ =>
    let v ← d.say value
    if isEllipsis index then refuse "Ellipsis not supported" n
    else
      let index ← TypeStyle.parameterOf n index
      let i ← d.say index
      if (← factsOf n.id).inHint then fail .missingPart else return some (v ++ "[" ++ i ++ "]")
  | .tuple es _ =>
    using_ "<tuple>"
    return some ("std::make_tuple(" ++ (← d.commas es) ++ ")")
  | .attempt t => attemptBlock visit t
  | .assert test _ =>
    if (← get).testCases then return some ("REQUIRE(" ++ (← d.say test) ++ ");")
    else
      using_ "<cassert>"
      return some ("assert(" ++ (← d.say test) ++ ");")
  | .annAssign target _ value _ =>
    let (t, type, v) ← d.declaration n target value
    return some (type.shown ++ " " ++ shown t ++ " = " ++ shown v ++ ";")
  | .module body =>
    let testCases := (← get).testCases
    let doc := (← factsOf n.id).docstring
    d.reset
    modify fun p => { p with testCases, moduleName := p.file.map Path.stem }
    return some (← join "\n" ((doc.map d.comment).toList.map some ++ (← d.moduleBody body)))
  | _ => d.step n

def emit : Visit := Target.emitter step

def headers (fixedWidth : Bool) : Emit String := do
  if (← get).testCases then header "#include <catch2/catch_test_macros.hpp>"
  if fixedWidth then header "#include <stdint.h>"
  let note ← remark "build/include_order"
  return Text.lines ((← get).headers.map (· ++ note))

def usings : Emit String := do
  let note ← remark "build/include_order"
  return Text.lines ((sorted (← get).usings).map fun u => "#include " ++ u ++ note)

/-- The text of a single program, emitted as it is written, without any type inferred. What it needs is listed
first on demand, with the test framework if it is to be tested. -/
def standalone (source : String) (listed testing : Bool) : Emit String := do
  let n ← readProgram source
  let n ← Lowering.run (Entry.extract []) n
  Scope.declare [] n
  Scope.assign n
  ListGrowth.collect n
  Marks.imports n
  modify fun p => { p with testCases := testing }
  let framework := if testing then ["#include <catch2/catch_test_macros.hpp>"] else []
  let needs := if listed then start.headers ++ start.usings else []
  let lines := framework ++ needs
  let lines := if lines.isEmpty then [] else lines ++ [""]
  return Text.lines lines ++ (← require (← emit (← refresh n)))

def target : Target where
  language := .cpp
  entryParams := ["argc", "argv"]
  lowerings := [("CppListComparisonRewriter", nameLists)]
  start o := { start with extension := o.extension, bare := o.bare }
  install := install
  emit := emit
  headers := headers
  usings := usings

end Polyglot.Cpp
