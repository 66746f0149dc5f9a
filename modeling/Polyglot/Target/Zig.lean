import Polyglot.Emit.Offside
import Polyglot.Emit.Target

/-!
# Zig

Functions that check something may fail; whoever calls them has to say so.
-/
namespace Polyglot.Zig

open Session Emit Dialect Plugins

def types : List (String × String) :=
  [("int", "i32"), ("float", "f64"), ("bytes", "[]u8"), ("bytearray", "[]u8"), ("str", "[]const u8"), ("bool", "bool")] ++
    fixedWidths ["i8", "i16", "i32", "i64", "u8", "u16", "u32", "u64"]

def containers : List (String × String) :=
  [("List", "pylib.AutoArrayList"), ("Dict", "pylib.AutoMap"), ("Set", "pylib.AutoSet"), ("Optional", "Optional")]

def ranks : List (String × Nat) :=
  ["bool", "i8", "u8", "i16", "u16", "i32", "u32", "i64", "u64", "f32", "f64"].zipIdx

def keywords : List String :=
  Offside.sourceKeywords ++
  ["addrspace", "align", "allowzero", "and", "anyframe", "anytype", "asm", "async", "await", "break", "callconv",
   "catch", "comptime", "const", "continue", "defer", "else", "enum", "errdefer", "error", "export", "extern",
   "fn", "for", "if", "inline", "noalias", "nosuspend", "noinline", "opaque", "or", "orelse", "packed", "pub",
   "resume", "return", "linksection", "struct", "suspend", "switch", "test", "threadlocal", "try", "union",
   "unreachable", "usingnamespace", "var", "volatile", "while"]

/-- Parameters of a type stand in parentheses. -/
def applied (value index : TypeTerm) : Analysis TypeTerm :=
  return .text (value.shown ++ "(" ++ index.shown ++ ")")

def style : TypeStyle := TypeStyle.combining (.text "var") applied

def native : NativeTypes := NativeTypes.plain types ranks

def install : Analysis Unit := Target.installMaps types containers

/-! ### Lowering -/

def errorTypes : Lowering := fun self n => do
  let mark : Analysis Unit := do
    match ← Scope.chain? n with
    | none => pure ()
    | some scopes =>
      match ← Scope.functionOf scopes with
      | some f => note f.id ({ · with needsErrorType := true })
      | none => pure ()
  match n.shape with
  | .assert .. => mark
  | .call func .. =>
    if (← factsOf n.id).resultType.isSome || (← factsOf func.id).resultType.isSome then mark
  | _ => pure ()
  Lowering.through self n

/-! ### Known functions -/

def aliased (short long : String) : Emit Unit :=
  modify fun p => if p.aliases.any (·.1 == short) then p else { p with aliases := p.aliases ++ [(short, long)] }

def header (name : String) : Emit Unit := modify fun p => { p with headers := insertNew name p.headers }

def printLine : Plugin := fun n vargs => do
  let places ← (callArgs n).mapM fun a => do
    let type ← TypeStyle.genericHint style.fallback a
    pure (if type.isText "str" then "\x7bs\x7d" else "\x7b\x7d")
  aliased "print" "std.debug.print"
  return some ("print(\"" ++ " ".intercalate places ++ "\\n\", .\x7b" ++ (← join ", " vargs) ++ "\x7d);")

def range : Plugin := fun n vargs => do
  match ← rangeOf n vargs with
  | (start, stop, none) => return some ("(" ++ start ++ ".." ++ stop ++ ")")
  | _ => refuseRange vargs

def plugins : Plugins where
  byName := [("print", printLine), ("range", range)]
  small := Offside.conversions "False" "Float64"

/-! ### Rules -/

def importModule (name : String) : String := "const " ++ name ++ " = @import (\"" ++ name ++ "\");"

def start : Page := { headers := ["std"], indentUnit := 2 }

def dialect (visit : Visit) : Dialect :=
  { Offside.dialect visit style install with
    symbols := Offside.symbols Symbols.common.binary "!"
    separator := ";"
    comment := fun text => "// " ++ text ++ "\n"
    importOne := fun name => return some (importModule name)
    importFrom := fun source names _ => return some (Text.lines (names.map fun name =>
      "const " ++ name ++ " = @import(\"" ++ source ++ ".zig\")." ++ name ++ ";"))
    start }

variable (visit : Visit)

def functionDef (n : Node) (f : Function Node) : Emit (Option String) := do
  let d := dialect visit
  let body ← Offside.inner d n f.body
  let args ← Offside.signature d n f
  let fails := if (← factsOf n.id).needsErrorType then "!" else ""
  let result ← if ← Tracing.isVoid n then pure (fails ++ "void")
    else if f.returns.isSome then do pure (fails ++ (← Offside.resultType d n f))
    else pure ""
  let result := if result.isEmpty then "void" else result
  return some (← Offside.indent (← Offside.levelOf n)
    ("pub fn " ++ f.name ++ "(" ++ Text.commas (args.map fun (name, t) => name ++ ": " ++ t) ++ ") " ++ result ++
      " \x7b\n" ++ Text.lines body ++ "\n\x7d\n"))

def filled (name type : String) (puts : List String) : String :=
  let pad := Text.times " " 12
  "blk: \x7b\n" ++ pad ++ "var " ++ name ++ " = " ++ type ++ ".init(null) catch unreachable;\n" ++
    pad ++ "; ".intercalate (puts.map fun p => name ++ "." ++ p ++ " catch unreachable") ++ ";\n" ++
    pad ++ "break :blk " ++ name ++ ";\n" ++ Text.times " " 8 ++ "\x7d"

def sequence (name type put : String) (es : List Node) : Emit (Option String) := do
  header "pylib"
  let texts ← es.mapM (dialect visit).say
  match es.head? with
  | none => return some (type ++ "(i32).init(null) catch unreachable")
  | some e =>
    let element := shown (← native.typeOf e)
    return some (filled name (type ++ "(" ++ element ++ ")") (texts.map fun t => put ++ "(" ++ t ++ ")"))

def dictionary (keys : List (Option Node)) (values : List Node) : Emit (Option String) := do
  let d := dialect visit
  header "pylib"
  let puts ← d.entries keys values fun k v => "put(" ++ k ++ ", " ++ v ++ ")"
  match keys.head?, values.head? with
  | some (some k), some v =>
    let key := shown (← native.typeOf k)
    let value := shown (← native.typeOf v)
    return some (filled "map" ("pylib.AutoMap(" ++ key ++ ", " ++ value ++ ")") puts)
  | _, _ => return some "pylib.AutoMap(i32, i32).init(null) catch unreachable"

/-- What stands before a call: functions that can fail are tried. -/
def tried (n func : Node) (definition : Option Node) : Emit String := do
  let told := (← factsOf n.id).resultType == some true || (← factsOf func.id).resultType == some true
  let fails ← match definition with
    | some f => if f.isFunction then do pure (← factsOf f.id).needsErrorType else pure false
    | none => pure false
  return if told || fails then "try " else ""

def variableWord : List NodeId → Option String → Emit String := Offside.variableWord "const"

def step (n : Node) : Emit (Option String) := do
  let d := dialect visit
  match n.shape with
  | .pass => return some "pass"
  | .functionDef f => functionDef visit n f
  | .ret none => return some "return;"
  | .ret (some v) => return some ((← Offside.returnValue d native n v) ++ ";")
  | .lambda .. => return some "fn lambda(): pass"
  | .attribute value attr _ => Offside.member d value attr
  | .call func args kwds => Offside.call d plugins n func args kwds "=" (tried n func)
  | .forLoop l =>
    let t ← d.say l.target
    let it ← d.say l.iter
    return some (Text.lines ([("for " ++ it ++ " |" ++ t ++ "| \x7b")] ++ (← Offside.inner d n l.body) ++ ["\x7d"]))
  | .whileLoop test body _ =>
    let head := "while (" ++ (← d.say test) ++ ") \x7b"
    return some (Text.lines ([head] ++ (← Offside.inner d n body) ++ ["\x7d"]))
  | .name id _ => return Offside.name keywords id
  | .cond test body orelse =>
    Offside.branch d n test body orelse (fun t b => "if (" ++ t ++ ") \x7b\n" ++ b ++ "\n\x7d\n")
      (fun b => "else \x7b\n" ++ b ++ "\n\x7d")
  | .binOp left op right =>
    let (l, r, wider) ← Offside.operands d native left right
    if op == .pow then return some ("std.math.pow(" ++ wider.shown ++ ", " ++ l ++ ", " ++ r ++ ")")
    else return some ("(" ++ l ++ " " ++ d.binarySymbol op ++ " " ++ r ++ ")")
  | .classDef _ => Offside.classDef d n (Offside.structure_ d n)
  | .list es _ => sequence visit "list" "pylib.AutoArrayList" "append" es
  | .set es => sequence visit "set" "pylib.AutoSet" "put" es
  | .dict keys values => dictionary visit keys values
  | .subscript value index _ => TypeFirst.item d n value index "(" ")"
  | .assert test _ =>
    aliased "expect" "std.testing.expect"
    return some ("try expect(" ++ (← d.say test) ++ ");")
  | .annAssign target _ value _ =>
    let (t, type, v) ← d.declaration n target value
    let kw ← variableWord (← Scope.chainOf n) none
    return some (kw ++ " " ++ shown t ++ (if type == style.fallback then "" else ": " ++ type.shown) ++ " = " ++
      shown v ++ ";")
  | .assign targets value =>
    Offside.assignments n targets fun target => do
      let kw ← variableWord (← Scope.chainOf n) target.ident?
      Offside.assignOne d n target value "" do
        let type ← d.typeOf target
        let typed := if type == style.fallback then "" else ": " ++ type.shown
        return fun t v => kw ++ " " ++ t ++ typed ++ " = " ++ v ++ ";"
  | _ => Offside.step d n

def emit : Visit := Target.emitter step

def target : Target where
  language := .zig
  lowerings := [("ZigInferMoveSemantics", Offside.moves)]
  analyses _ := [native.infer]
  laterLowerings := [("ZigImplicitConstructor", Offside.implicitConstructor), ("ZigErrorUnionAnalyzer", errorTypes)]
  start _ := start
  install := install
  emit := emit
  headers _ := do return Text.lines ((sorted (← get).headers).map importModule)
  usings := do return Text.lines ((sorted (← get).usings).map fun m => "const " ++ m ++ " = std." ++ m ++ ";")
  aliases := do return Text.lines ((← get).aliases.map fun (short, long) => "const " ++ short ++ " = " ++ long ++ ";")

end Polyglot.Zig
